/-
  TexEngine.Proofs.Engine.Ending.Branch

  Conditionals end.  Tests are made of scanners, and skipping a branch takes tokens away.
  The record of a conditional whose test is being evaluated is not left behind, whether
  the test succeeds or fails; this is why reading at the outermost level is never
  interrupted.
-/
import TexEngine.Proofs.Engine.Ending.Tokens
import TexEngine.Proofs.Engine.PendingTest

namespace TexEngine

open Eng

/-! ## The conditional stack -/

namespace OnlyPending

theorem pop (cs : Array Conditional) : OnlyPending cs cs.pop := by
  intro i c hc hpending
  rw [Array.getElem?_pop] at hc
  split at hc
  · exact ⟨c, hc, hpending⟩
  · contradiction

theorem modify (cs : Array Conditional) (i : Nat) {f : Conditional → Conditional}
    (hf : ∀ c, (f c).pending = true → c.pending = true) : OnlyPending cs (cs.modify i f) := by
  intro j c hc hpending
  rw [Array.getElem?_modify] at hc
  split at hc
  · obtain ⟨c₀, hc₀, rfl⟩ := Option.map_eq_some_iff.mp hc
    exact ⟨c₀, hc₀, hf c₀ hpending⟩
  · exact ⟨c, hc, hpending⟩

/-- A conditional that has been opened and settled is not pending. -/
theorem settle {cs cs' : Array Conditional} {c : Conditional} (h : OnlyPending (cs.push c) cs') :
    OnlyPending cs (cs'.modify cs.size fun c => { c with pending := false }) := by
  intro j d hd hpending
  rw [Array.getElem?_modify] at hd
  split at hd
  · obtain ⟨d₀, -, rfl⟩ := Option.map_eq_some_iff.mp hd
    contradiction
  · obtain ⟨d₀, hd₀, hpending₀⟩ := h j d hd hpending
    rw [Array.getElem?_push] at hd₀
    rw [if_neg (by omega)] at hd₀
    exact ⟨d₀, hd₀, hpending₀⟩

end OnlyPending

namespace Machine

variable {m m' : Machine}

/-- The conditional stack does not matter for the rest of the environment. -/
theorem Pristine.withConditionals (h : m.Pristine) (cs : Array Conditional) :
    Pristine { m with env := { m.env with conditionals := cs } } where
  env := ⟨h.env.lexicon, h.env.code, h.env.active, h.env.escape, h.env.dimen, h.env.glue,
    h.env.toks, h.env.font⟩
  job := h.job

theorem Keeps.of_conditionals (h : m.Pristine) {cs : Array Conditional}
    (hcs : OnlyPending m.env.conditionals cs) :
    m.Keeps { m with env := { m.env with conditionals := cs } } :=
  ⟨h.withConditionals cs, hcs⟩

end Machine

namespace Expander

variable {strict : Bool} {x y : Nat → Expander} {m : Machine}

/-- A change of a conditional that does not make it pending. -/
theorem modifyConditional_halts (i : Nat) {f : Conditional → Conditional}
    (hf : ∀ c, (f c).pending = true → c.pending = true) :
    Halts (fun _ => modifyConditional i f) (fun _ => modifyConditional i f) m fun _ m' =>
      m'.input = m.input :=
  .ok rfl (fun hm => .of_conditionals hm (.modify _ i hf)) rfl

theorem popConditional_halts :
    Halts (fun _ => popConditional) (fun _ => popConditional) m fun _ m' => m'.input = m.input :=
  .ok rfl (fun hm => .of_conditionals hm (.pop _)) rfl

/-! ## Skipping -/

section Skipping

variable (hx : ∀ n, (x n).fuel = n) (hy : ∀ n, (y n).fuel = n)
include hx hy

theorem skipBranch_halts (i : Nat) (cases : Bool) (m₀ : Machine) :
    Halts (fun n => (x n).skipBranch i cases) (fun n => (y n).skipBranch i cases) m₀ fun _ m' =>
      m'.span < m₀.span := by
  refine Halts.iterate hx hy (I := fun _ m => m.span ≤ m₀.span) (fun _ m => m.span)
    (fun depth m hI => ?_) (le_refl _)
  refine .raw (fun m' _ => .look rfl (.failHere _ _)) fun t m' htakes => .looks ?_ fun r => ?_
  · dsimp only
    split
    · rw [bind_of_ok (meaning?_apply t m')]
      generalize meaningIn m'.env t = μ?
      cases μ? with
      | none => exact ⟨_, rfl⟩
      | some μ =>
        cases μ with
        | conditional p => cases p <;> cases depth <;> exact ⟨_, rfl⟩
        | _ => exact ⟨_, rfl⟩
    · exact ⟨_, rfl⟩
  · have hlt := htakes.span_lt
    cases r with
    | again depth => exact ⟨hlt.le.trans hI, hlt⟩
    | done e => exact hlt.trans_le hI

theorem skipToFi_halts (m₀ : Machine) :
    Halts (fun n => (x n).skipToFi) (fun n => (y n).skipToFi) m₀ fun _ m' =>
      m'.span ≤ m₀.span := by
  refine .look (env_apply m₀) (Halts.iterate hx hy (I := fun _ m => m.span ≤ m₀.span)
    (fun _ m => m.span) (fun _ m hI => ?_) (le_refl _))
  refine (skipBranch_halts hx hy _ false m).bind fun e m' _ hlt => ?_
  have hle := hlt.le.trans hI
  cases e with
  | endIf =>
    refine popConditional_halts.bind fun _ m'' _ hm'' => .pure ?_
    exact (Machine.span_congr hm'').trans_le hle
  | _ => exact .pure ⟨hle, hlt⟩

theorem skipFirst_halts (i : Nat) (m : Machine) :
    Halts (fun n => (x n).skipFirst i) (fun n => (y n).skipFirst i) m fun _ m' =>
      m'.span ≤ m.span := by
  refine (skipBranch_halts hx hy i false m).bind fun e m' _ hlt => ?_
  have helse := modifyConditional_halts (m := m') i
    (f := fun c => { c with value := true, inElse := true }) fun _ => id
  cases e with
  | endIf =>
    exact popConditional_halts.mono fun _ _ _ hm'' => (Machine.span_congr hm'').trans_le hlt.le
  | _ => exact helse.mono fun _ _ _ hm'' => (Machine.span_congr hm'').trans_le hlt.le

theorem skipCases_halts (i : Nat) (k : Int64) (m₀ : Machine) :
    Halts (fun n => (x n).skipCases i k) (fun n => (y n).skipCases i k) m₀ fun _ m' =>
      m'.span ≤ m₀.span := by
  refine Halts.iterate hx hy (I := fun _ m => m.span ≤ m₀.span)
    (fun _ m => m.span) (fun k m hI => ?_) (le_refl _)
  split
  · refine (modifyConditional_halts i (f := fun c => { c with value := true }) fun _ => id).bind
      fun _ m' _ hm' => .pure ?_
    exact (Machine.span_congr hm').trans_le hI
  · refine (skipBranch_halts hx hy i true m).bind fun e m' _ hlt => ?_
    have hle := hlt.le.trans hI
    have helse := modifyConditional_halts (m := m') i
      (f := fun c => { c with value := true, inElse := true }) fun _ => id
    cases e with
    | endIf =>
      refine popConditional_halts.bind fun _ m'' _ hm'' => .pure ?_
      exact (Machine.span_congr hm'').trans_le hle
    | orElse => exact helse.bind fun _ m'' _ hm'' => .pure ((Machine.span_congr hm'').trans_le hle)
    | orCase => exact .pure ⟨hle, hlt⟩

end Skipping

/-! ## Tests -/

theorem sameTokens_looks (a b : Token) (m : Machine) : ∃ r, sameTokens a b m = .ok r m := by
  unfold sameTokens
  cases a.isCommand with
  | true =>
    cases b.isCommand with
    | true =>
      dsimp only
      rw [bind_of_ok (meaning?_apply a m), bind_of_ok (meaning?_apply b m)]
      cases meaningIn m.env a <;> cases meaningIn m.env b <;> exact ⟨_, rfl⟩
    | false => exact ⟨_, bind_of_ok (meaning?_apply a m) _⟩
  | false =>
    cases b.isCommand with
    | true => exact ⟨_, bind_of_ok (meaning?_apply b m) _⟩
    | false => exact ⟨_, rfl⟩

theorem charCat_looks (t : Token) (m : Machine) : ∃ r, charCat t m = .ok r m := by
  unfold charCat
  rw [bind_of_ok (isFrozen_apply m)]
  split
  · rw [bind_of_ok (meaning?_apply t m)]
    cases meaningIn m.env t with
    | none => cases t.isChar && !t.isActive <;> exact ⟨_, rfl⟩
    | some μ => cases μ <;> cases t.isChar && !t.isActive <;> exact ⟨_, rfl⟩
  · cases t.isChar && !t.isActive <;> exact ⟨_, rfl⟩

theorem scanBox_halts (h : Partners strict x y) (m : Machine) :
    Halts (fun n => (x n).scanBox) (fun n => (y n).scanBox) m fun _ m' => m'.cost ≤ m.cost := by
  refine (numberWith_halts (scanInteger_halts h m) _).bind fun n m' _ hcost => ?_
  exact .look (env_apply m') (.pure hcost)

/-- Reading a token that is compared with another one. -/
theorem charCat_halts {β : Type} {F G : Nat → CharCode × Catcode → Eng β}
    {R : β → Machine → Prop} (h : Partners strict x y) (m : Machine)
    (hrest : ∀ c m', m'.cost ≤ m.cost → Halts (F · c) (G · c) m' R) :
    Halts
      (fun n => (x n).next? >>= fun t? => expect t? .runawayConditional [] >>= fun t =>
        charCat t >>= F n)
      (fun n => (y n).next? >>= fun t? => expect t? .runawayConditional [] >>= fun t =>
        charCat t >>= G n) m R := by
  refine (next?_costs h m).required fun t m' hcost => ?_
  obtain ⟨c, hc⟩ := charCat_looks t m'
  exact .look hc (hrest c m' ((m'.cost_le_costWith _).trans hcost))

theorem test_halts (h : Partners strict x y) (t : Test) (m : Machine) :
    Halts (fun n => (x n).test t) (fun n => (y n).test t) m fun _ m' => m'.cost ≤ m.cost := by
  cases t with
  | always => exact .pure (le_refl _)
  | never => exact .pure (le_refl _)
  | number =>
    -- Each operand costs nothing but what is read for it, so the bounds of the readings add up.
    refine (scanInteger_halts h m).bind fun a m₁ _ h₁ => ?_
    refine (scanRelation_halts h m₁).bind fun rel m₂ _ h₂ => ?_
    exact (scanInteger_halts h m₂).bind fun b m₃ _ h₃ => .pure (h₃.trans (h₂.trans h₁))
  | dimension =>
    refine (scanDimen_halts h m).bind fun a m₁ _ h₁ => ?_
    refine (scanRelation_halts h m₁).bind fun rel m₂ _ h₂ => ?_
    exact (scanDimen_halts h m₂).bind fun b m₃ _ h₃ => .pure (h₃.trans (h₂.trans h₁))
  | odd => exact (scanInteger_halts h m).bind fun a m' _ hcost => .pure hcost
  | sameMeaning =>
    refine .raw (fun m' _ => .expect fun t ht => nomatch ht) fun a m₁ h₁ => .expect fun _ _ => ?_
    refine .raw (fun m' _ => .expect fun t ht => nomatch ht) fun b m₂ h₂ => .expect fun _ _ => ?_
    exact .looks (sameTokens_looks _ _ m₂) fun _ => h₂.cost_le.trans h₁.cost_le
  | sameChar =>
    refine charCat_halts h m fun a m₁ h₁ => charCat_halts h m₁ fun b m₂ h₂ => ?_
    exact .pure (h₂.trans h₁)
  | sameCategory =>
    refine charCat_halts h m fun a m₁ h₁ => charCat_halts h m₁ fun b m₂ h₂ => ?_
    exact .pure (h₂.trans h₁)
  | voidBox => exact (scanBox_halts h m).bind fun a m' _ hcost => .pure hcost
  | horizontalBox => exact (scanBox_halts h m).bind fun a m' _ hcost => .pure hcost
  | verticalBox => exact (scanBox_halts h m).bind fun a m' _ hcost => .pure hcost
  | defined =>
    refine .raw (fun m' _ => .expect fun t ht => nomatch ht) fun a m₁ h₁ => .expect fun _ _ => ?_
    split
    · exact .look (meaning?_apply _ m₁) (.pure h₁.cost_le)
    · exact .pure h₁.cost_le
  | definedName =>
    refine (scanCsname_halts h m).bind fun name m' _ hname => ?_
    exact .look (env_apply m') (.pure hname.2)

/-! ## Conditionals -/

theorem stopped_whilePending {α : Type} {act act' : Eng α} (i : Nat)
    (h : Stopped (act m) (act' m)) :
    Stopped (whilePending i act m) (whilePending i act' m) := by
  rw [whilePending_apply, whilePending_apply]
  generalize act m = r at h
  generalize act' m = r' at h
  cases h with
  | error hf m' => exact .error hf _
  | alarm hf m' r' => exact .alarm hf _ _

/-- A conditional is opened, its test is evaluated, and a branch is chosen. -/
theorem opened_halts {α : Type} {A B : Nat → Eng α} {F G : Nat → Nat → α → Eng Unit}
    (name : String) (isCase : Bool) (htest : ∀ m, Halts A B m fun _ m' => m'.cost ≤ m.cost)
    (hchoose : ∀ i a m, Halts (F · i a) (G · i a) m fun _ m' => m'.span ≤ m.span) (m : Machine) :
    Halts
      (fun n => do
        let i ← openConditional name isCase
        F n i (← whilePending i (A n)))
      (fun n => do
        let i ← openConditional name isCase
        G n i (← whilePending i (B n))) m fun _ m' => m'.weight ≤ m.weight := by
  intro hm
  obtain ⟨es, hopen⟩ := openConditional_apply name isCase m
  have hopened : ((m.note es).within (opening m.input.locator name isCase)).Pristine :=
    Machine.Pristine.withConditionals (m := m.note es) ⟨hm.env, hm.job⟩ _
  -- The test runs with the new conditional on the stack; settling it afterwards changes neither
  -- the input nor what may be assumed of the environment.
  cases htest _ hopened with
  | @done a m₂ N hkeeps hcost h =>
    have hkeeps' : m.Keeps (settle m.env.conditionals.size m₂) :=
      ⟨hkeeps.pristine.withConditionals _, hkeeps.pending.settle⟩
    have hlight : ∀ m' : Machine, m'.span ≤ (settle m.env.conditionals.size m₂).span →
        m'.weight ≤ m.weight := fun m' hspan =>
      (Machine.weight_le_of_span_le hspan).trans (Machine.weight_le_of_cost_le hcost)
    have hbehind :=
      (hchoose m.env.conditionals.size a (settle m.env.conditionals.size m₂)).mono
        fun _ m' _ => hlight m'
    refine (hbehind hkeeps'.pristine).of_later N hkeeps' fun n hn => ?_
    obtain ⟨hA, hB⟩ := h n hn
    have hsettledA := whilePending_apply m.env.conditionals.size (A n) _ |>.trans (by rw [hA])
    have hsettledB := whilePending_apply m.env.conditionals.size (B n) _ |>.trans (by rw [hB])
    exact ⟨(bind_of_ok hopen _).trans (bind_of_ok hsettledA _),
      (bind_of_ok hopen _).trans (bind_of_ok hsettledB _)⟩
  | stopped N h =>
    refine .stopped N fun n hn => ?_
    rw [bind_of_ok hopen, bind_of_ok hopen]
    exact (stopped_whilePending _ (h n hn)).bind _ _

theorem expandIf_halts (h : Partners strict x y) (t : Test) (m : Machine) :
    Halts (fun n => (x n).expandIf t) (fun n => (y n).expandIf t) m fun _ m' =>
      m'.weight ≤ m.weight := by
  refine opened_halts t.name false (test_halts h t) (fun i b m => ?_) m
  cases b with
  | true =>
    exact (modifyConditional_halts i (f := fun c => { c with value := true }) fun _ => id).mono
      fun _ m' _ hm' => (Machine.span_congr hm').le
  | false => exact skipFirst_halts h.fuel_left h.fuel_right i m

theorem expandCase_halts (h : Partners strict x y) (m : Machine) :
    Halts (fun n => (x n).expandCase) (fun n => (y n).expandCase) m fun _ m' =>
      m'.weight ≤ m.weight := by
  refine opened_halts _ true (scanInteger_halts h) (fun i k m => ?_) m
  split
  · exact skipFirst_halts h.fuel_left h.fuel_right i m
  · exact skipCases_halts h.fuel_left h.fuel_right i k m

/-- A branch is closed, unless the test of the innermost conditional is interrupted. -/
theorem endBranch_halts (hx : ∀ n, (x n).fuel = n) (hy : ∀ n, (y n).fuel = n) (p : CondPrimitive)
    (t : Token) (m : Machine) :
    Halts (fun n => (x n).endBranch p t) (fun n => (y n).endBranch p t) m fun _ m' =>
      m'.weight ≤ m.weight ∨ m.Interruptible ∧ m' = m.feed [.frozenRelax, t] := by
  refine .look (env_apply m) ?_
  dsimp only
  split
  · exact .failAt _ _ _
  · split
    · rename_i hpending
      exact .push_last (by simp) (.inr ⟨(Option.any_eq_true _ _).mp hpending, rfl⟩)
    · split
      · exact popConditional_halts.mono fun _ m' _ hm' =>
          .inl (Machine.weight_le_of_span_le (Machine.span_congr hm').le)
      · exact (skipToFi_halts hx hy m).mono fun _ m' _ hspan =>
          .inl (Machine.weight_le_of_span_le hspan)

theorem expandConditional_halts (h : Partners strict x y) (p : CondPrimitive) (t : Token)
    (m : Machine) :
    Halts (fun n => (x n).expandConditional p t) (fun n => (y n).expandConditional p t) m
      fun _ m' => m'.weight ≤ m.weight ∨ m.Interruptible ∧ m' = m.feed [.frozenRelax, t] := by
  have hend := fun p => endBranch_halts h.fuel_left h.fuel_right p t m
  cases p with
  | test c => exact (expandIf_halts h c m).mono fun _ _ _ => .inl
  | ifCase => exact (expandCase_halts h m).mono fun _ _ _ => .inl
  | orElse => exact hend .orElse
  | orCase => exact hend .orCase
  | endIf => exact hend .endIf

end Expander

end TexEngine
