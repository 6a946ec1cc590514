/-
  TexEngine.Proofs.Engine.Discipline

  Specifications of operations.  A discipline says how the states in front of and
  behind an operation are related, whether it succeeds or fails, and which property
  of states is kept.  `Spec D P act Q` says that `act` keeps to the discipline `D`;
  the property is kept, and results have the property `Q`, if `P` holds.

  The relation has to hold without any condition, and the rest of an operation
  depends on what was read before.  Therefore the facts about earlier results are
  not hypotheses of the specification of the rest, but are collected in its `P`.
-/
import TexEngine.Proofs.Engine.Reading

namespace TexEngine

/-- What operations may do.  `rel` relates the states in front and behind, and `inv`
    is kept as long as the state is `good`; a state that is not good never becomes
    good again. -/
structure Discipline where
  rel : Machine → Machine → Prop
  refl : ∀ m, rel m m
  trans : ∀ {m₁ m₂ m₃}, rel m₁ m₂ → rel m₂ m₃ → rel m₁ m₃
  good : Machine → Prop
  good_of_rel : ∀ {m m'}, rel m m' → good m' → good m
  inv : Machine → Prop

namespace Eng

variable {α β σ : Type} {D D' : Discipline} {P P' : Prop}

/-- The state behind an operation, whether it succeeds or fails. -/
def after (act : Eng α) (m : Machine) : Machine :=
  match act m with
  | .ok _ m' => m'
  | .error _ m' => m'

theorem after_of_ok {act : Eng α} {a : α} {m m' : Machine} (h : act m = .ok a m') :
    act.after m = m' := by
  rw [after, h]

theorem after_of_error {act : Eng α} {f : Fault} {m m' : Machine} (h : act m = .error f m') :
    act.after m = m' := by
  rw [after, h]

theorem eq_ok_of_value? {act : Eng α} {a : α} {m : Machine} (h : act.value? m = some a) :
    act m = .ok a (act.after m) := by
  obtain ⟨m', hm'⟩ := exists_of_value?_eq_some h
  rw [hm', after_of_ok hm']

/-- Whatever comes of it, reading moves the input on and reports the streams that end. -/
theorem after_rawToken (m : Machine) :
    rawToken.after m = Machine.note { m with input := (m.input.next m.env.lexicon).source }
      (closeEvents m.traceLevel (m.input.next m.env.lexicon).closed) := by
  rw [after, rawToken_apply]
  dsimp only
  cases (m.input.next m.env.lexicon).result <;> rfl

/-- The operation keeps to the discipline; if `P` holds, it keeps the invariant and
    its results satisfy `Q`. -/
structure Spec (D : Discipline) (P : Prop) (act : Eng α) (Q : α → Prop) : Prop where
  holds : ∀ m, match act m with
    | .ok a m' => D.rel m m' ∧ (P → D.inv m → D.good m' → D.inv m' ∧ Q a)
    | .error _ m' => D.rel m m' ∧ (P → D.inv m → D.good m' → D.inv m')

namespace Spec

variable {act : Eng α} {f : α → Eng β} {Q Q' : α → Prop} {R : β → Prop}

theorem rel_after (h : Spec D P act Q) (m : Machine) : D.rel m (act.after m) := by
  have hm := h.holds m
  unfold after
  cases hact : act m with
  | ok a m' => rw [hact] at hm; exact hm.1
  | error e m' => rw [hact] at hm; exact hm.1

theorem inv_after (h : Spec D P act Q) (hP : P) {m : Machine} (hinv : D.inv m)
    (hgood : D.good (act.after m)) : D.inv (act.after m) := by
  have hm := h.holds m
  unfold after at hgood ⊢
  cases hact : act m with
  | ok a m' =>
    rw [hact] at hm hgood
    exact (hm.2 hP hinv hgood).1
  | error e m' =>
    rw [hact] at hm hgood
    exact hm.2 hP hinv hgood

/-- At a state where the first part is a change that the discipline allows, a sequence
    does what its rest does. -/
theorem holds_of_change {f : Unit → Eng β} {change : Eng Unit} {m m' : Machine}
    (hchange : change m = .ok () m') (hrel : D.rel m m')
    (hinv : P → D.inv m → D.good m' → D.inv m') (hrest : Spec D (P ∧ D.inv m) (f ()) R) :
    match (change >>= f) m with
    | .ok b m'' => D.rel m m'' ∧ (P → D.inv m → D.good m'' → D.inv m'' ∧ R b)
    | .error _ m'' => D.rel m m'' ∧ (P → D.inv m → D.good m'' → D.inv m'') := by
  have hm' := hrest.holds m'
  rw [bind_of_ok hchange]
  cases hres : f () m' with
  | ok b m'' =>
    rw [hres] at hm'
    refine ⟨D.trans hrel hm'.1, fun hP hm hgood => hm'.2 ⟨hP, hm⟩ ?_ hgood⟩
    exact hinv hP hm (D.good_of_rel hm'.1 hgood)
  | error e m'' =>
    rw [hres] at hm'
    refine ⟨D.trans hrel hm'.1, fun hP hm hgood => hm'.2 ⟨hP, hm⟩ ?_ hgood⟩
    exact hinv hP hm (D.good_of_rel hm'.1 hgood)

/-! ## Rules -/

theorem mono (h : Spec D P act Q) (hP : P' → P) (hQ : P' → ∀ a, Q a → Q' a) :
    Spec D P' act Q' := by
  constructor
  intro m
  have hm := h.holds m
  cases hact : act m with
  | ok a m' =>
    rw [hact] at hm
    refine ⟨hm.1, fun hP' hinv hgood => ?_⟩
    obtain ⟨hinv', ha⟩ := hm.2 (hP hP') hinv hgood
    exact ⟨hinv', hQ hP' a ha⟩
  | error e m' =>
    rw [hact] at hm
    exact ⟨hm.1, fun hP' => hm.2 (hP hP')⟩

/-- A weaker condition on the results. -/
theorem imp (h : Spec D P act Q) (hQ : ∀ a, Q a → Q' a) : Spec D P act Q' :=
  h.mono id fun _ => hQ

theorem trivial (h : Spec D P act Q) : Spec D P act fun _ => True :=
  h.imp fun _ _ => True.intro

/-- A discipline that allows more. -/
theorem of_rel (h : Spec D P act Q) (hrel : ∀ m m', D.rel m m' → D'.rel m m')
    (hgood : D'.good = D.good) (hinv : D'.inv = D.inv) : Spec D' P act Q := by
  constructor
  intro m
  have hm := h.holds m
  cases hact : act m with
  | ok a m' =>
    rw [hact] at hm
    refine ⟨hrel _ _ hm.1, ?_⟩
    rw [hgood, hinv]
    exact hm.2
  | error e m' =>
    rw [hact] at hm
    refine ⟨hrel _ _ hm.1, ?_⟩
    rw [hgood, hinv]
    exact hm.2

theorem pure {a : α} (h : P → Q a) : Spec D P (pure a : Eng α) Q :=
  ⟨fun m => ⟨D.refl m, fun hP hinv _ => ⟨hinv, h hP⟩⟩⟩

/-- A result of which nothing is said. -/
theorem done {a : α} : Spec D P (Pure.pure a : Eng α) fun _ => True :=
  .pure fun _ => True.intro

/-- Where a discipline says nothing of single states, the states in front and behind count. -/
theorem of_rel_after (hinv : ∀ m, D.inv m) (h : ∀ m, D.rel m (act.after m)) :
    Spec D P act fun _ => True := by
  constructor
  intro m
  have hm := h m
  unfold after at hm
  cases hact : act m with
  | ok a m' =>
    rw [hact] at hm
    exact ⟨hm, fun _ _ _ => ⟨hinv m', True.intro⟩⟩
  | error e m' =>
    rw [hact] at hm
    exact ⟨hm, fun _ _ _ => hinv m'⟩

theorem throw (e : Fault) : Spec D P (throw e : Eng α) Q :=
  ⟨fun m => ⟨D.refl m, fun _ hinv _ => hinv⟩⟩

/-- In a sequence, the rest may rely on the result of the first part. -/
theorem bind (h : Spec D P act Q) (hf : ∀ a, Spec D (P ∧ Q a) (f a) R) :
    Spec D P (act >>= f) R := by
  constructor
  intro m
  have hm := h.holds m
  cases hact : act m with
  | error e m' =>
    rw [bind_of_error hact]
    rw [hact] at hm
    exact hm
  | ok a m' =>
    rw [bind_of_ok hact]
    rw [hact] at hm
    have hm' := (hf a).holds m'
    cases hrest : f a m' with
    | ok b m'' =>
      rw [hrest] at hm'
      refine ⟨D.trans hm.1 hm'.1, fun hP hinv hgood => ?_⟩
      -- The state in the middle is good as well: otherwise the last one could not be.
      obtain ⟨hinv', ha⟩ := hm.2 hP hinv (D.good_of_rel hm'.1 hgood)
      exact hm'.2 ⟨hP, ha⟩ hinv' hgood
    | error e m'' =>
      rw [hrest] at hm'
      refine ⟨D.trans hm.1 hm'.1, fun hP hinv hgood => ?_⟩
      obtain ⟨hinv', ha⟩ := hm.2 hP hinv (D.good_of_rel hm'.1 hgood)
      exact hm'.2 ⟨hP, ha⟩ hinv' hgood

/-- A sequence whose rest does not rely on the result. -/
theorem seq (h : Spec D P act Q) (hf : ∀ a, Spec D P (f a) R) : Spec D P (act >>= f) R :=
  h.bind fun a => (hf a).mono And.left fun _ _ => id

theorem map {g : α → β} (h : Spec D P act Q) (hQ : ∀ a, Q a → R (g a)) :
    Spec D P (g <$> act) R := by
  have hmap : g <$> act = act >>= fun a => Pure.pure (g a) := rfl
  rw [hmap]
  exact h.bind fun a => .pure fun hP => hQ a hP.2

/-- What a round of a loop gives: a state with the property `I`, or a result with the
    property `Q`. -/
def Round (I : σ → Prop) (Q : α → Prop) : Step σ α → Prop
  | .again s => I s
  | .done a => Q a

/-- A loop keeps what each of its rounds keeps. -/
theorem iterate {step : σ → Eng (Step σ α)} {I : σ → Prop}
    (hstep : ∀ s, Spec D (P ∧ I s) (step s) (Round I Q)) (n : Nat) {s : σ} (hs : P → I s) :
    Spec D P (iterate step n s) Q := by
  -- By induction on the rounds that are left; a loop without any fails, which is allowed.
  have hloop : ∀ n s, Spec D (P ∧ I s) (Eng.iterate step n s) Q := by
    intro n
    induction n with
    | zero => exact fun s => .throw _
    | succ n ih =>
      intro s
      refine (hstep s).bind fun r => ?_
      cases r with
      | again s' => exact (ih s').mono (fun h => ⟨h.1.1, h.2⟩) fun _ _ => id
      | done a => exact .pure fun h => h.2
  exact (hloop n s).mono (fun hP => ⟨hP, hs hP⟩) fun _ _ => id

/-- A loop of which no more is said than that it keeps to the discipline. -/
theorem loop {step : σ → Eng (Step σ α)} (hstep : ∀ s, Spec D P (step s) fun _ => True)
    (n : Nat) (s : σ) : Spec D P (Eng.iterate step n s) fun _ => True := by
  refine .iterate (I := fun _ => True) (fun s => ?_) n fun _ => True.intro
  refine (hstep s).mono And.left fun _ r _ => ?_
  cases r <;> exact True.intro

theorem tryCatch {handler : Fault → Eng α} (h : Spec D P act Q)
    (hhandler : ∀ e, Spec D P (handler e) Q) : Spec D P (tryCatch act handler) Q := by
  constructor
  intro m
  have hm := h.holds m
  show match EStateM.tryCatch act handler m with
    | .ok a m' => D.rel m m' ∧ (P → D.inv m → D.good m' → D.inv m' ∧ Q a)
    | .error _ m' => D.rel m m' ∧ (P → D.inv m → D.good m' → D.inv m')
  unfold EStateM.tryCatch
  cases hact : act m with
  | ok a m' =>
    rw [hact] at hm
    exact hm
  | error e m' =>
    rw [hact] at hm
    have hm' := (hhandler e).holds m'
    show match handler e m' with
      | .ok a m'' => D.rel m m'' ∧ (P → D.inv m → D.good m'' → D.inv m'' ∧ Q a)
      | .error _ m'' => D.rel m m'' ∧ (P → D.inv m → D.good m'' → D.inv m'')
    cases hrest : handler e m' with
    | ok a m'' =>
      rw [hrest] at hm'
      refine ⟨D.trans hm.1 hm'.1, fun hP hinv hgood => ?_⟩
      -- The handler starts where the failed operation stopped, not where it began.
      exact hm'.2 hP (hm.2 hP hinv (D.good_of_rel hm'.1 hgood)) hgood
    | error e' m'' =>
      rw [hrest] at hm'
      refine ⟨D.trans hm.1 hm'.1, fun hP hinv hgood => ?_⟩
      exact hm'.2 hP (hm.2 hP hinv (D.good_of_rel hm'.1 hgood)) hgood

theorem blame (t : Token) (h : Spec D P act Q) : Spec D P (blame t act) Q := by
  constructor
  intro m
  have hm := h.holds m
  unfold Eng.blame
  cases hact : act m with
  | ok a m' =>
    rw [hact] at hm
    exact hm
  | error e m' =>
    rw [hact] at hm
    cases e <;> exact hm

/-- Reading the state. -/
theorem get : Spec D P (get : Eng Machine) D.inv :=
  ⟨fun m => ⟨D.refl m, fun _ hinv _ => ⟨hinv, hinv⟩⟩⟩

/-- Changing the state. -/
theorem modify {g : Machine → Machine} (hrel : ∀ m, D.rel m (g m))
    (hinv : P → ∀ m, D.inv m → D.good (g m) → D.inv (g m)) :
    Spec D P (modify g) fun _ => True :=
  ⟨fun m => ⟨hrel m, fun hP h hgood => ⟨hinv hP m h hgood, True.intro⟩⟩⟩

end Spec

/-! ## Failures -/

variable {Q : α → Prop}

theorem fail_spec (kind : ErrorKind) (details : List String) :
    Spec D P (fail kind details : Eng α) Q :=
  .throw _

theorem failAt_spec (kind : ErrorKind) (t : Token) (details : List String) :
    Spec D P (failAt kind t details : Eng α) Q :=
  .throw _

theorem failHere_spec (kind : ErrorKind) (details : List String) :
    Spec D P (failHere kind details : Eng α) Q :=
  Spec.get.seq fun _ => .throw _

theorem expect_spec (t? : Option Token) (kind : ErrorKind) (details : List String)
    {T : Token → Prop} (h : P → ∀ t ∈ t?, T t) : Spec D P (expect t? kind details) T := by
  cases t? with
  | none => exact failHere_spec kind details
  | some t => exact .pure fun hP => h hP t rfl

/-- Reading a token that has to be there. -/
theorem Spec.required {R : β → Prop} {T : Token → Prop} {read : Eng (Option Token)}
    {f : Token → Eng β} {kind : ErrorKind} {details : List String}
    (h : Spec D P read fun t? => ∀ t ∈ t?, T t) (hf : ∀ t, Spec D (P ∧ T t) (f t) R) :
    Spec D P (do f (← expect (← read) kind details)) R := by
  refine h.bind fun t? => ?_
  refine (expect_spec t? kind details fun hP => hP.2).bind fun t => ?_
  exact (hf t).mono (fun hP => ⟨hP.1.1, hP.2⟩) fun _ _ => id

theorem arith_spec {r : Except ArithFault α} (h : P → ∀ a, r = .ok a → Q a) :
    Spec D P (arith r) Q := by
  cases r with
  | ok a => exact .pure fun hP => h hP a rfl
  | error f => exact .throw _

end Eng

end TexEngine
