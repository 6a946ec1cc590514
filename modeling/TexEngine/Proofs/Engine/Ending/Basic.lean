/-
  TexEngine.Proofs.Engine.Ending.Basic

  When operations come to an end.  The loops of the engine are given fuel, and run out of
  it where the real ones would go on for ever; an operation ends if some amount of fuel is
  enough.  The judgement below says that an operation ends, as a triple of total
  correctness: with enough fuel, it either succeeds with a result and a state that have a
  property, always the same ones, or fails with an error that is not the lack of fuel.  A
  loop ends if each of its rounds does and makes a rank in a well-founded order smaller.

  The judgement is about two operations at once that do the same, the first one being the
  second one under observation: where the observer raises an alarm, nothing is said about
  the other one.

  Everything is about engines in which only primitives are defined, and nothing has been
  assigned to registers.  Expansion keeps them so (`Machine.Keeps`), and it leaves no
  conditional behind whose test is still being evaluated.
-/
import Mathlib.Data.Prod.Lex
import TexEngine.Engine.Dump
import TexEngine.Proofs.Engine.Reading
import TexEngine.Proofs.Input.Gauge

namespace TexEngine

open Eng

/-! ## States without definitions -/

/-- Only primitives are defined, apart from control sequences that mean \relax, and no
    registers are in use. -/
structure Env.Pristine (env : Env Meaning) : Prop where
  lexicon : env.lexicon.Ordinary
  code : ∀ name μ, env.code? name = some μ →
    Meaning.primitive? name = some μ ∨ μ = Meaning.relax
  active : ∀ c, env.active? c = none
  escape : env.escapeChar = some Token.backslash
  dimen : ∀ name, env.dimen name = 0
  glue : ∀ name, env.glue name = {}
  toks : ∀ name, env.tokens name = []
  font : env.font = Font.null

/-- The environment is as in an engine that has just been set up, and so is the name of
    the job. -/
structure Machine.Pristine (m : Machine) : Prop where
  env : m.env.Pristine
  job : m.jobName = Machine.defaultJobName

/-- Every conditional whose test is being evaluated was in this state before. -/
def OnlyPending (cs cs' : Array Conditional) : Prop :=
  ∀ (i : Nat) (c : Conditional), cs'[i]? = some c → c.pending = true →
    ∃ c₀ : Conditional, cs[i]? = some c₀ ∧ c₀.pending = true

theorem OnlyPending.refl (cs : Array Conditional) : OnlyPending cs cs :=
  fun _ c hc hpending => ⟨c, hc, hpending⟩

theorem OnlyPending.trans {cs cs' cs'' : Array Conditional} (h : OnlyPending cs cs')
    (h' : OnlyPending cs' cs'') : OnlyPending cs cs'' := by
  intro i c hc hpending
  obtain ⟨c', hc', hpending'⟩ := h' i c hc hpending
  exact h i c' hc' hpending'

/-- What expansion leaves of a state without definitions. -/
structure Machine.Keeps (m m' : Machine) : Prop where
  pristine : m'.Pristine
  pending : OnlyPending m.env.conditionals m'.env.conditionals

namespace Machine.Keeps

variable {m m' m'' : Machine}

theorem refl (h : m.Pristine) : m.Keeps m :=
  ⟨h, .refl _⟩

theorem trans (h : m.Keeps m') (h' : m'.Keeps m'') : m.Keeps m'' :=
  ⟨h'.pristine, h.pending.trans h'.pending⟩

/-- The environment and the name of the job are all that matters. -/
theorem of_env (h : m.Pristine) (henv : m'.env = m.env) (hjob : m'.jobName = m.jobName) :
    m.Keeps m' := by
  refine ⟨⟨henv ▸ h.env, hjob.trans h.job⟩, ?_⟩
  rw [henv]
  exact .refl _

end Machine.Keeps

/-- Only \relax can be the meaning of the frozen \relax. -/
theorem Eng.meaning?_of_meaningIn {env : Env Meaning} {t : Token} {μ : Meaning}
    (h : meaningIn env t = some μ) (hrelax : μ ≠ Meaning.relax) :
    t ≠ .frozenRelax ∧ env.meaning? t = some μ := by
  unfold meaningIn at h
  split at h
  · exact absurd (Option.some.inj h).symm hrelax
  · exact ⟨‹_›, h⟩

/-! ## The judgement -/

/-- The alarm that a test was interrupted while an argument is being read. -/
def Fault.interruption : Fault :=
  .failure "a test was interrupted in front of an argument"

/-- The alarm that a file has been opened. -/
def Fault.fileOpened : Fault :=
  .failure "a file was opened"

/-- The observer has raised an alarm. -/
def Fault.IsAlarm (f : Fault) : Prop :=
  f = .interruption ∨ f = .fileOpened

variable {α β σ : Type}

/-- An operation, and the same operation under observation, have failed for good. -/
inductive Stopped : EStateM.Result Fault Machine α → EStateM.Result Fault Machine α → Prop where
  | error {f : Fault} (hf : f ≠ .outOfFuel) (m : Machine) : Stopped (.error f m) (.error f m)
  | alarm {f : Fault} (hf : f.IsAlarm) (m : Machine) (r : EStateM.Result Fault Machine α) :
      Stopped (.error f m) r

/-- What becomes of a state with enough fuel. -/
inductive Ending (A B : Nat → Eng α) (m : Machine) (Q : α → Machine → Prop) : Prop where
  | done {a : α} {m' : Machine} (N : Nat) (hkeeps : m.Keeps m') (hQ : Q a m')
      (h : ∀ n ≥ N, A n m = .ok a m' ∧ B n m = .ok a m')
  | stopped (N : Nat) (h : ∀ n ≥ N, Stopped (A n m) (B n m))

/-- With enough fuel, the operation `B` and the operation `A`, which is `B` under
    observation, end in the same way, and with the property `Q` if they succeed. -/
def Halts (A B : Nat → Eng α) (m : Machine) (Q : α → Machine → Prop) : Prop :=
  m.Pristine → Ending A B m Q

theorem Stopped.bind {act act' : Eng α} {m : Machine} (h : Stopped (act m) (act' m))
    (f f' : α → Eng β) : Stopped ((act >>= f) m) ((act' >>= f') m) := by
  generalize hr : act m = r at h
  generalize hr' : act' m = r' at h
  cases h with
  | error hf m' =>
    rw [bind_of_error hr, bind_of_error hr']
    exact .error hf m'
  | alarm hf m' _ =>
    rw [bind_of_error hr]
    exact .alarm hf m' _

/-- The observer may go on where the operation itself has come to its end. -/
theorem Stopped.bind_left {act : Eng α} {m : Machine} {r : EStateM.Result Fault Machine α}
    (h : Stopped (act m) r) (f : α → Eng α) : Stopped ((act >>= f) m) r := by
  generalize hr : act m = r₀ at h
  cases h with
  | error hf m' =>
    rw [bind_of_error hr]
    exact .error hf m'
  | alarm hf m' _ =>
    rw [bind_of_error hr]
    exact .alarm hf m' _

/-- Blaming a token for a failure changes neither alarms nor the lack of fuel. -/
theorem Stopped.blame {act act' : Eng α} {m : Machine} (h : Stopped (act m) (act' m))
    (t : Token) : Stopped (Eng.blame t act m) (Eng.blame t act' m) := by
  unfold Eng.blame
  generalize act m = r at h
  generalize act' m = r' at h
  cases h with
  | @error f hf m' =>
    cases f with
    | outOfFuel => contradiction
    | tex e => exact .error (by simp [Source.annotate]) m'
    | _ => exact .error (by simp) m'
  | alarm hf m' _ => rcases hf with rfl | rfl <;> exact .alarm (by simp [Fault.IsAlarm]) m' _

namespace Ending

variable {A A' B B' : Nat → Eng α} {m m₁ : Machine} {Q Q' : α → Machine → Prop}

theorem mono (h : Ending A B m Q) (hQ : ∀ a m', m.Keeps m' → Q a m' → Q' a m') :
    Ending A B m Q' := by
  cases h with
  | done N hkeeps ha h => exact .done N hkeeps (hQ _ _ hkeeps ha) h
  | stopped N h => exact .stopped N h

/-- Operations that go on, with enough fuel, as others do from a later state. -/
theorem of_later (K : Nat) (hkeeps : m.Keeps m₁)
    (heq : ∀ n ≥ K, A n m = A' n m₁ ∧ B n m = B' n m₁) (h : Ending A' B' m₁ Q) :
    Ending A B m Q := by
  cases h with
  | done N hkeeps' ha h =>
    refine .done (max N K) (hkeeps.trans hkeeps') ha fun n hn => ?_
    obtain ⟨hA, hB⟩ := heq n (Nat.le_trans (Nat.le_max_right N K) hn)
    rw [hA, hB]
    exact h n (Nat.le_trans (Nat.le_max_left N K) hn)
  | stopped N h =>
    refine .stopped (max N K) fun n hn => ?_
    obtain ⟨hA, hB⟩ := heq n (Nat.le_trans (Nat.le_max_right N K) hn)
    rw [hA, hB]
    exact h n (Nat.le_trans (Nat.le_max_left N K) hn)

end Ending

namespace Halts

variable {A A' B B' : Nat → Eng α} {m m' : Machine} {Q Q' : α → Machine → Prop}
  {R : β → Machine → Prop}

/-! ## Rules -/

/-- The states that the judgement is about. -/
theorem of_pristine (h : m.Pristine → Halts A B m Q) : Halts A B m Q :=
  fun hm => h hm hm

theorem mono (h : Halts A B m Q) (hQ : ∀ a m', m'.Pristine → Q a m' → Q' a m') :
    Halts A B m Q' :=
  fun hm => (h hm).mono fun a m' hkeeps => hQ a m' hkeeps.pristine

/-- With enough fuel, the operations are others. -/
theorem congr (K : Nat) (heq : ∀ n ≥ K, A n m = A' n m ∧ B n m = B' n m) (h : Halts A' B' m Q) :
    Halts A B m Q :=
  fun hm => .of_later K (.refl hm) heq (h hm)

theorem pure {a : α} (h : Q a m) : Halts (fun _ => pure a) (fun _ => pure a) m Q :=
  fun hm => .done 0 (.refl hm) h fun _ _ => ⟨rfl, rfl⟩

/-- An operation without loops that succeeds. -/
theorem ok {act : Eng α} {a : α} (hact : act m = .ok a m') (hkeeps : m.Pristine → m.Keeps m')
    (h : Q a m') : Halts (fun _ => act) (fun _ => act) m Q :=
  fun hm => .done 0 (hkeeps hm) h fun _ _ => ⟨hact, hact⟩

/-- An operation that only looks at the state. -/
theorem looks {act : Eng α} (hact : ∃ a, act m = .ok a m) (h : ∀ a, Q a m) :
    Halts (fun _ => act) (fun _ => act) m Q := by
  obtain ⟨a, hact⟩ := hact
  exact ok hact .refl (h a)

/-- An operation without loops that fails. -/
theorem error {act : Eng α} {f : Fault} (hact : act m = .error f m') (hf : f ≠ .outOfFuel) :
    Halts (fun _ => act) (fun _ => act) m Q := by
  intro _
  refine .stopped 0 fun _ _ => ?_
  rw [hact]
  exact .error hf m'

theorem bind {F G : Nat → α → Eng β} (h : Halts A B m Q)
    (hf : ∀ a m', m'.Pristine → Q a m' → Halts (F · a) (G · a) m' R) :
    Halts (fun n => A n >>= F n) (fun n => B n >>= G n) m R := by
  intro hm
  cases h hm with
  | @done a m' N hkeeps ha h =>
    refine (hf a m' hkeeps.pristine ha hkeeps.pristine).of_later N hkeeps fun n hn => ?_
    exact ⟨bind_of_ok (h n hn).1 _, bind_of_ok (h n hn).2 _⟩
  | stopped N h => exact .stopped N fun n hn => (h n hn).bind _ _

/-- A sequence that begins with an operation without loops. -/
theorem step {act : Eng α} {a : α} {F G : Nat → α → Eng β} (hact : act m = .ok a m')
    (hkeeps : m.Pristine → m.Keeps m') (h : Halts (F · a) (G · a) m' R) :
    Halts (fun n => act >>= F n) (fun n => act >>= G n) m R := by
  intro hm
  refine (h (hkeeps hm).pristine).of_later 0 (hkeeps hm) fun n _ => ?_
  exact ⟨bind_of_ok hact _, bind_of_ok hact _⟩

/-- A sequence that begins by looking at the state. -/
theorem look {act : Eng α} {a : α} {F G : Nat → α → Eng β} (hact : act m = .ok a m)
    (h : Halts (F · a) (G · a) m R) :
    Halts (fun n => act >>= F n) (fun n => act >>= G n) m R :=
  step hact .refl h

/-- A sequence that begins with a change of the state. -/
theorem modify {F G : Nat → Unit → Eng β} (f : Machine → Machine)
    (hkeeps : m.Pristine → m.Keeps (f m)) (h : Halts (F · ()) (G · ()) (f m) R) :
    Halts (fun n => modify f >>= F n) (fun n => modify f >>= G n) m R :=
  step rfl hkeeps h

theorem map {f : α → β} (h : Halts A B m Q) (hQ : ∀ a m', Q a m' → R (f a) m') :
    Halts (fun n => f <$> A n) (fun n => f <$> B n) m R :=
  h.bind fun a m' _ ha => .pure (hQ a m' ha)

theorem blame (t : Token) (h : Halts A B m Q) :
    Halts (fun n => Eng.blame t (A n)) (fun n => Eng.blame t (B n)) m Q := by
  intro hm
  cases h hm with
  | done N hkeeps ha h =>
    refine .done N hkeeps ha fun n hn => ?_
    unfold Eng.blame
    rw [(h n hn).1, (h n hn).2]
    exact ⟨rfl, rfl⟩
  | stopped N h => exact .stopped N fun n hn => (h n hn).blame t

/-- What a loop does behind a round. -/
def behindRound (rest : σ → Eng α) : Step σ α → Eng α
  | .again s => rest s
  | .done a => Pure.pure a

theorem iterate_succ (step : σ → Eng (Step σ α)) (n : Nat) (s : σ) :
    Eng.iterate step (n + 1) s = step s >>= behindRound (Eng.iterate step n) := by
  rw [Eng.iterate]
  exact bind_congr fun r => by cases r <;> rfl

/-- What a round of a loop leads to: a further round, or a result. -/
def Round (again : σ → Machine → Prop) (done : α → Machine → Prop) :
    Step σ α → Machine → Prop
  | .again s => again s
  | .done a => done a

/-- A loop ends if its rounds do and make the rank smaller. -/
theorem iterate {step step' : Nat → σ → Eng (Step σ α)} {fuel fuel' : Nat → Nat}
    (hfuel : ∀ n, fuel n = n) (hfuel' : ∀ n, fuel' n = n) {I : σ → Machine → Prop}
    (rank : σ → Machine → ℕ ×ₗ ℕ)
    (hstep : ∀ s m, I s m → Halts (step · s) (step' · s) m
      (Round (fun s' m' => I s' m' ∧ rank s' m' < rank s m) Q))
    {s : σ} (hs : I s m) :
    Halts (fun n => Eng.iterate (step n) (fuel n) s) (fun n => Eng.iterate (step' n) (fuel' n) s)
      m Q := by
  -- By induction on the rank; `j` rounds have been done, which have used as much fuel.
  have hloop : ∀ p : σ × Machine, I p.1 p.2 → ∀ j,
      Halts (fun n => Eng.iterate (step n) (n - j) p.1)
        (fun n => Eng.iterate (step' n) (n - j) p.1) p.2 Q := by
    intro p
    induction p using
      (InvImage.wf (fun p : σ × Machine => rank p.1 p.2) wellFounded_lt).induction with
    | _ p ih =>
      obtain ⟨s, m⟩ := p
      intro hs j hm
      have hunfold : ∀ (step : Nat → σ → Eng (Step σ α)), ∀ n ≥ j + 1,
          Eng.iterate (step n) (n - j) s =
            step n s >>= behindRound (Eng.iterate (step n) (n - (j + 1))) := by
        intro step n hn
        obtain ⟨k, rfl⟩ := Nat.exists_eq_add_of_le hn
        have hk : j + 1 + k - j = k + 1 := by omega
        have hk' : j + 1 + k - (j + 1) = k := by omega
        rw [hk, hk', iterate_succ]
      have hround : Halts (fun n => step n s >>= behindRound (Eng.iterate (step n) (n - (j + 1))))
          (fun n => step' n s >>= behindRound (Eng.iterate (step' n) (n - (j + 1)))) m Q := by
        refine (hstep s m hs).bind fun r m' _ hr => ?_
        cases r with
        | again s' => exact ih (s', m') hr.2 hr.1 (j + 1)
        | done a => exact .pure hr
      refine (hround.congr (j + 1) fun n hn => ?_) hm
      exact ⟨congrFun (hunfold step n hn) m, congrFun (hunfold step' n hn) m⟩
  have hstart := hloop (s, m) hs 0
  simp only [hfuel, hfuel']
  exact hstart

end Halts

end TexEngine
