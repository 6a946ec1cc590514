/-
  TexEngine.Proofs.Engine.Ending.Scan

  Scanning numbers ends.  What a scanner leaves, with the token that it has put back, costs
  no more than what it began with; a quantity is read behind the token that denotes it, so
  that nested numbers begin with less.
-/
import TexEngine.Engine.Branch
import TexEngine.Proofs.Engine.Ending.Read
import TexEngine.Proofs.Engine.Ending.Weights

namespace TexEngine

open Eng

/-! ## Operations on the side -/

/-- The input is as before, and so is everything that expansion depends on. -/
structure Machine.Same (m m' : Machine) : Prop where
  env : m'.env = m.env
  input : m'.input = m.input
  job : m'.jobName = m.jobName

namespace Machine.Same

variable {m m' : Machine} (h : m.Same m')
include h

theorem keeps (hm : m.Pristine) : m.Keeps m' :=
  .of_env hm h.env h.job

theorem cost_eq : m'.cost = m.cost :=
  cost_congr h.input

theorem costWith_eq (t? : Option Token) : m'.costWith t? = m.costWith t? := by
  cases t? with
  | none => exact h.cost_eq
  | some t => exact cost_congr (congrArg (Source.feed · [t]) h.input)

end Machine.Same

namespace Eng

theorem observe_same (fits : Bool) (m : Machine) :
    ∃ m', observe fits m = .ok () m' ∧ m.Same m' := by
  cases fits with
  | true => exact ⟨m, rfl, rfl, rfl, rfl⟩
  | false => exact ⟨_, rfl, rfl, rfl, rfl⟩

/-- Looking at a cell. -/
theorem read_same (cell : Cell) (m : Machine) :
    ∃ v m', cell.read m = .ok v m' ∧ m.Same m' := by
  cases cell with
  | register bank name => cases bank <;> exact ⟨_, _, rfl, rfl, rfl, rfl⟩
  | _ => exact ⟨_, _, rfl, rfl, rfl, rfl⟩

end Eng

namespace Halts

variable {α β : Type} {m : Machine} {R : β → Machine → Prop}

/-- A sequence that begins with an operation on the side. -/
theorem aside {act : Eng α} {F G : Nat → α → Eng β} (h : ∃ a m', act m = .ok a m' ∧ m.Same m')
    (hrest : ∀ a m', act m = .ok a m' → m.Same m' → Halts (F · a) (G · a) m' R) :
    Halts (fun n => act >>= F n) (fun n => act >>= G n) m R := by
  obtain ⟨a, m', hact, hsame⟩ := h
  exact .step hact hsame.keeps (hrest a m' hact hsame)

theorem observe {fits : Bool} {F G : Nat → Unit → Eng β}
    (h : ∀ m', m.Same m' → Halts (F · ()) (G · ()) m' R) :
    Halts (fun n => Eng.observe fits >>= F n) (fun n => Eng.observe fits >>= G n) m R := by
  obtain ⟨m', hact, hsame⟩ := observe_same fits m
  exact .step hact hsame.keeps (h m' hsame)

/-- A token that is refused is put back. -/
theorem refuse {Q : α → Machine → Prop} (t : Token) (kind : ErrorKind) (t' : Token)
    (details : List String) :
    Halts (fun _ => (do Eng.push [t]; Eng.failAt kind t' details : Eng α))
      (fun _ => (do Eng.push [t]; Eng.failAt kind t' details : Eng α)) m Q :=
  .push (by simp) (.failAt _ _ _)

end Halts

namespace Expander

variable {strict : Bool} {x y : Nat → Expander} {m : Machine} {c : ℕ ×ₗ ℕ}

/-! ## Spaces and signs -/

theorem skipOptionalSpace_halts (h : Partners strict x y) (m : Machine) :
    Halts (fun n => (x n).skipOptionalSpace) (fun n => (y n).skipOptionalSpace) m fun _ m' =>
      m'.cost ≤ m.cost := by
  refine (next?_costs h m).bind fun t? m' _ hcost => ?_
  cases t? with
  | none => exact .pure hcost
  | some t =>
    dsimp only
    split
    · exact .pure ((m'.cost_le_costWith _).trans hcost)
    · exact .push_last (by simp) hcost

theorem scanSigns_halts (h : Partners strict x y) (m₀ : Machine) :
    Halts (fun n => (x n).scanSigns) (fun n => (y n).scanSigns) m₀ fun r m' =>
      m'.costWith (some r.2) ≤ m₀.cost := by
  refine Halts.iterate h.fuel_left h.fuel_right (I := fun _ m => m.cost ≤ m₀.cost)
    (fun _ m => m.cost) (fun neg m hI => ?_) (le_refl _)
  refine (next?_costs h m).required fun t m' hcost => ?_
  -- A space or a sign is not the frozen \relax, so that reading on costs less.
  have hagain : t ≠ .frozenRelax → m'.cost ≤ m₀.cost ∧ m'.cost < m.cost := fun ht =>
    have hlt := (m'.cost_lt_costWith ht).trans_le hcost
    ⟨hlt.le.trans hI, hlt⟩
  split
  · rename_i hblank
    rcases Bool.or_eq_true_iff.mp hblank with hspace | hplus
    · exact .pure (hagain (Token.ne_frozenRelax_of_hasCat hspace))
    · exact .pure (hagain (Token.ne_frozenRelax_of_isOther hplus))
  · split
    · exact .pure (hagain (Token.ne_frozenRelax_of_isOther ‹_›))
    · exact .pure (hcost.trans hI)

/-! ## Constants -/

theorem ne_frozenRelax_of_digit? {t : Token} {radix d : Int64} (h : digit? t radix = some d) :
    t ≠ .frozenRelax := by
  rintro rfl
  contradiction

/-- What a round of `scanRadix` does with a token. -/
def radixRound (radix : Int64) (v : Constant) (t? : Option Token) :
    Eng (Step (Constant × Option Token) Constant) := do
  match t? with
  | none => return .done v
  | some t =>
    match digit? t radix, ← isFrozen with
    | some d, false =>
      observe (Constant.addFits v radix d)
      return .again (Constant.add v radix d, none)
    | _, _ =>
      unless t.hasCat .space do push [t]
      return .done v

/-- A round goes on only behind a digit. -/
theorem radixRound_halts (radix : Int64) (v : Constant) (t? : Option Token) (m : Machine) :
    Halts (fun _ => radixRound radix v t?) (fun _ => radixRound radix v t?) m
      (Halts.Round (fun s m' => m'.costWith s.2 < m.costWith t?)
        fun _ m' => m'.cost ≤ m.costWith t?) := by
  cases t? with
  | none => exact .pure (le_refl _)
  | some t =>
    -- What is no digit ends the number; it is put back unless it is a space.
    have hstop : Halts
        (fun _ => (do
          unless t.hasCat .space do push [t]
          return .done v : Eng (Step (Constant × Option Token) Constant)))
        (fun _ => (do
          unless t.hasCat .space do push [t]
          return .done v : Eng (Step (Constant × Option Token) Constant))) m
        (Halts.Round (fun s m' => m'.costWith s.2 < m.costWith (some t))
          fun _ m' => m'.cost ≤ m.costWith (some t)) := by
      split
      · exact .pure (m.cost_le_costWith _)
      · exact .push (by simp) (.pure (le_refl _))
    refine .look (isFrozen_apply m) ?_
    cases hdigit : digit? t radix with
    | none => exact hstop
    | some d =>
      cases m.frozen with
      | true => exact hstop
      | false =>
        refine .observe fun m' hsame => .pure ?_
        have hlt := m.cost_lt_costWith (ne_frozenRelax_of_digit? hdigit)
        rwa [← hsame.cost_eq] at hlt

theorem scanRadix_halts (h : Partners strict x y) (radix : Int64) (first : Option Token)
    (hm : m.costWith first ≤ c) :
    Halts (fun n => (x n).scanRadix radix first) (fun n => (y n).scanRadix radix first) m
      fun _ m' => m'.cost ≤ c := by
  refine (Halts.iterate h.fuel_left h.fuel_right (Q := fun _ m' => m'.cost ≤ c)
    (I := fun s m => m.costWith s.2 ≤ c) (fun s m => m.costWith s.2) ?_ hm).bind ?_
  -- A round that goes on has used a digit up, so that the rest costs less than in front of it.
  · rintro ⟨v, first⟩ m hI
    have hround : ∀ t? m', m'.costWith t? ≤ m.costWith first →
        Halts (fun _ => radixRound radix v t?) (fun _ => radixRound radix v t?) m'
          (Halts.Round (fun s m'' => m''.costWith s.2 ≤ c ∧ m''.costWith s.2 < m.costWith first)
            fun _ m'' => m''.cost ≤ c) := by
      intro t? m' hcost
      refine (radixRound_halts radix v t? m').mono fun r m'' _ hr => ?_
      cases r with
      | again s => exact ⟨(hr.trans_le hcost).le.trans hI, hr.trans_le hcost⟩
      | done v => exact (hr.trans hcost).trans hI
    cases first with
    | none => exact (next?_costs h m).bind fun t? m' _ hcost => hround t? m' hcost
    | some t => exact .look rfl (hround (some t) m (le_refl _))
  · intro v m' _ hcost
    split
    · exact .fail _ _
    · split
      · exact .fail _ _
      · exact .pure hcost

theorem scanCharConstant_halts (h : Partners strict x y) (m : Machine) :
    Halts (fun n => (x n).scanCharConstant) (fun n => (y n).scanCharConstant) m fun _ m' =>
      m'.cost ≤ m.cost := by
  refine Halts.token (fun m' _ => .expect fun t ht => nomatch ht) fun t m' _ htakes =>
    .expect fun u hu => ?_
  have hskip : ∀ c : Int, Halts
      (fun n => (do (x n).skipOptionalSpace; return Int64.ofInt c : Eng Int64))
      (fun n => (do (y n).skipOptionalSpace; return Int64.ofInt c : Eng Int64)) m' fun _ m'' =>
        m''.cost ≤ m.cost := fun c =>
    (skipOptionalSpace_halts h m').bind fun _ m'' _ hcost => .pure (hcost.trans htakes.cost_le)
  split
  · split
    · exact .look rfl (hskip _)
    · exact .error_bind rfl (by simp)
  · exact .look rfl (hskip _)

/-! ## Quantities -/

/-- The quantity that a token denotes. -/
theorem quantity?_apply (t : Token) (m : Machine) : quantity? t m = .ok
    (if m.frozen || !t.isCommand then none
     else (meaningIn m.env t).bind fun μ => μ.kind?.map fun k => (μ, k)) m := by
  unfold quantity?
  rw [bind_of_ok (isFrozen_apply m)]
  split
  · rfl
  · rw [bind_of_ok (meaning?_apply t m)]
    cases meaningIn m.env t <;> rfl

/-- The frozen \relax denotes no quantity. -/
theorem ne_frozenRelax_of_quantity? {t : Token} {q : Meaning × ValueKind}
    (h : quantity? t m = .ok (some q) m) : t ≠ .frozenRelax := by
  rintro rfl
  rw [quantity?_apply] at h
  injection h with h
  split at h
  · contradiction
  · simp [meaningIn, Meaning.relax, Meaning.kind?] at h

theorem scanFont_halts (h : Partners strict x y) (m : Machine) :
    Halts (fun n => (x n).scanFont) (fun n => (y n).scanFont) m fun f m' =>
      f = Font.null ∧ m'.cost ≤ m.cost := by
  refine (nextNonSpace?_halts h m).required fun t m' hcost => .of_pristine fun hm' => ?_
  refine .look (meaning?_apply t m') ?_
  have hle := (m'.cost_le_costWith (some t)).trans hcost
  split
  · rename_i hf
    exact .pure ⟨hm'.env.eq_null_of_meaningIn hf, hle⟩
  · exact .look (env_apply m') (.pure ⟨hm'.env.font, hle⟩)
  · exact .refuse _ _ _ _

variable {int int' : Nat → Eng Int64}

theorem numberWith_halts (hint : Halts int int' m fun _ m' => m'.cost ≤ c) (max : Int64) :
    Halts (fun n => numberWith (int n) max) (fun n => numberWith (int' n) max) m fun _ m' =>
      m'.cost ≤ c := by
  refine hint.bind fun v m' _ hcost => ?_
  split
  · exact .fail _ _
  · exact .pure hcost

theorem charCodeWith_halts (hint : Halts int int' m fun _ m' => m'.cost ≤ c) :
    Halts (fun n => charCodeWith (int n)) (fun n => charCodeWith (int' n)) m fun _ m' =>
      m'.cost ≤ c := by
  refine hint.bind fun v m' _ hcost => ?_
  split
  · exact .fail _ _
  · exact .pure hcost

theorem resolveWith_halts (h : Partners strict x y)
    (hint : Halts int int' m fun _ m' => m'.cost ≤ c) (hm : m.cost ≤ c) (μ : Meaning) :
    Halts (fun n => (x n).resolveWith (int n) μ) (fun n => (y n).resolveWith (int' n) μ) m
      fun cell m' => cell.HasNoFont ∧ m'.cost ≤ c := by
  have hplain : ∀ {cell : Cell} {m' : Machine}, cell.HasNoFont → m'.cost ≤ c →
      Halts (fun _ => pure cell) (fun _ => pure cell) m' fun cell m' =>
        cell.HasNoFont ∧ m'.cost ≤ c := fun hcell hcost => .pure ⟨hcell, hcost⟩
  cases μ with
  | quantity q =>
    cases q with
    | register bank =>
      exact (numberWith_halts hint _).bind fun v m' _ hcost => hplain True.intro hcost
    | catcode => exact (charCodeWith_halts hint).bind fun v m' _ hcost => hplain True.intro hcost
    | charCode table =>
      exact (charCodeWith_halts hint).bind fun v m' _ hcost => hplain True.intro hcost
    | fontDimen =>
      -- The only font that there is has no parameters that could be set.
      refine hint.bind fun v m' _ hcost => (scanFont_halts h m').bind fun f m'' _ hf => ?_
      rw [if_pos (.inr hf.1)]
      exact .fail _ _
    | _ => exact hplain True.intro hm
  | _ => exact hplain True.intro hm

/-! ## Integers -/

theorem unsignedWith_halts (h : Partners strict x y) (t : Token) (hm : m.costWith (some t) ≤ c)
    (hint : t ≠ .frozenRelax → Halts int int' m fun _ m' => m'.cost ≤ m.cost) :
    Halts (fun n => (x n).unsignedWith (int n) t) (fun n => (y n).unsignedWith (int' n) t) m
      fun _ m' => m'.cost ≤ c := by
  have hle := (m.cost_le_costWith (some t)).trans hm
  obtain ⟨q?, hq⟩ : ∃ q?, quantity? t m = .ok q? m := ⟨_, quantity?_apply t m⟩
  refine .look hq ?_
  split
  · exact .refuse _ _ _ _
  · rename_i μ k _
    refine (resolveWith_halts h (hint (ne_frozenRelax_of_quantity? hq)) (le_refl _) μ).bind
      fun cell m' _ hcell => .aside (read_same cell m') fun v m'' _ hsame => .pure ?_
    rw [hsame.cost_eq]
    exact hcell.2.trans hle
  · split
    · exact (scanCharConstant_halts h m).mono fun _ m' _ hcost => hcost.trans hle
    · split
      · exact scanRadix_halts h 8 none hle
      · split
        · exact scanRadix_halts h 16 none hle
        · split
          · exact scanRadix_halts h 10 (some t) hm
          · exact .refuse _ _ _ _

/-- Numbers are nested in quantities, whose tokens have been read before the number
    begins; therefore the input gets cheaper from number to number. -/
theorem integerWithin_halts (h : Partners strict x y) (m : Machine) (j : Nat) :
    Halts (fun n => (x n).integerWithin (n - j)) (fun n => (y n).integerWithin (n - j)) m
      fun _ m' => m'.cost ≤ m.cost := by
  -- By induction on the cost: the signs in front of a number within a number have been read, so
  -- the inner number has less to read.  `j` counts the levels that are above.
  induction m using (InvImage.wf Machine.cost wellFounded_lt).induction generalizing j with
  | _ m ih =>
    -- With fuel for another level, a level is opened by its definition.
    have hunfold : ∀ (x : Nat → Expander), ∀ n ≥ j + 1,
        (x n).integerWithin (n - j) = (do
          let r ← (x n).scanSigns
          let v ← (x n).unsignedWith ((x n).integerWithin (n - (j + 1))) r.2
          observe (!r.1 || Word.negFits v)
          return if r.1 then -v else v) := by
      intro x n hn
      obtain ⟨k, rfl⟩ := Nat.exists_eq_add_of_le hn
      have hk : j + 1 + k - j = k + 1 := by omega
      have hk' : j + 1 + k - (j + 1) = k := by omega
      rw [hk, hk', integerWithin]
    refine Halts.congr (j + 1) (fun n hn => ?_) (Halts.bind (scanSigns_halts h m)
      (F := fun n r => do
        let v ← (x n).unsignedWith ((x n).integerWithin (n - (j + 1))) r.2
        observe (!r.1 || Word.negFits v)
        return if r.1 then -v else v)
      (G := fun n r => do
        let v ← (y n).unsignedWith ((y n).integerWithin (n - (j + 1))) r.2
        observe (!r.1 || Word.negFits v)
        return if r.1 then -v else v) ?_)
    · exact ⟨congrFun (hunfold x n hn) m, congrFun (hunfold y n hn) m⟩
    · rintro ⟨neg, t⟩ m' _ hcost
      refine (unsignedWith_halts h t hcost fun ht => ?_).bind fun v m'' _ hcost' => ?_
      · exact ih m' ((m'.cost_lt_costWith ht).trans_le hcost) (j + 1)
      · refine .observe fun m₃ hsame => .pure ?_
        rwa [hsame.cost_eq]

theorem scanInteger_halts (h : Partners strict x y) (m : Machine) :
    Halts (fun n => (x n).scanInteger) (fun n => (y n).scanInteger) m fun _ m' =>
      m'.cost ≤ m.cost := by
  unfold scanInteger
  simp only [h.fuel_left, h.fuel_right]
  exact integerWithin_halts h m 0

theorem resolve_halts (h : Partners strict x y) (μ : Meaning) (m : Machine) :
    Halts (fun n => (x n).resolve μ) (fun n => (y n).resolve μ) m fun cell m' =>
      cell.HasNoFont ∧ m'.cost ≤ m.cost :=
  resolveWith_halts h (scanInteger_halts h m) (le_refl _) μ

theorem scanRelation_halts (h : Partners strict x y) (m : Machine) :
    Halts (fun n => (x n).scanRelation) (fun n => (y n).scanRelation) m fun _ m' =>
      m'.cost ≤ m.cost := by
  refine (nextNonSpace?_halts h m).required fun t m' hcost => ?_
  have hle := (m'.cost_le_costWith (some t)).trans hcost
  split
  · exact .pure hle
  · split
    · exact .pure hle
    · split
      · exact .pure hle
      · exact .refuse _ _ _ _

end Expander

end TexEngine
