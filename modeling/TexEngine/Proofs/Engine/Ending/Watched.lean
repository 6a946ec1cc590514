/-
  TexEngine.Proofs.Engine.Ending.Watched

  Reading all input with expansion ends while only primitives are defined, unless a test is
  interrupted by a token that is read again and again.  This happens where a conditional
  is waiting for the end of its test, and the argument of \scantokens, or a file name in
  braces, is being read: an \else, \or or \fi there is given back behind a \relax, the
  \relax is skipped or kept, and the token comes next once more.

  Therefore expansion is watched here.  An observer raises an alarm when a test is
  interrupted in front of such an argument, and when a file is opened, since nothing is
  known of its length; apart from the alarms, watched expansion is expansion.  The alarm is
  cautious: with \the in front of the token that is given back, reading would have stopped
  at the \relax.
-/
import TexEngine.Proofs.Engine.Ending.Expand
import TexEngine.Proofs.Engine.Jobs

namespace TexEngine

open Eng Gauge

namespace Expander

/-! ## Observation -/

/-- The expander, with an alarm where a token is given back behind a \relax. -/
def inArgument (x : Expander) : Expander :=
  { fuel := x.fuel
    expand := fun μ t => do
      let waiting := (← get).waiting
      x.expand μ t
      if (← get).waiting = .frozenRelax :: t :: waiting then throw .interruption }

/-- \input, with an alarm where a file is opened. -/
def watchedInput (x : Expander) (t : Token) : Eng Unit := do
  let u ← expect (← x.nextNonSpace?) .fileNotFound []
  let name ← (if u.hasCat .beginGroup then x.inArgument else x).fileNameFrom u
  checkInputDepth
  tryCatch (includeFile name) fun _ => failAt .fileNotFound t [name]
  throw .fileOpened

/-- What the expansion of a token does, under observation. -/
def watchedPerform (x : Expander) (μ : Meaning) (t : Token) : Eng Unit :=
  match μ with
  | .expandable .input => x.watchedInput t
  | .expandable .scantokens => x.inArgument.expandScanTokens
  | μ => x.perform μ t

/-- One expansion, under observation. -/
def watchedStep (x : Expander) (μ : Meaning) (t : Token) : Eng Unit :=
  blame t do
    x.watchedPerform μ t
    let s ← get
    if s.input.pending > s.limits.pushback then fail .recursionTooDeep ["input buffer"]

/-- The expander below which `depth` further levels of expansions are allowed, under
    observation. -/
def watched (fuel : Nat) : Nat → Expander
  | 0 => ofDepth fuel 0
  | depth + 1 => { fuel, expand := fun μ t => watchedStep (watched fuel depth) μ t }

theorem inArgument_expand (x : Expander) (μ : Meaning) (t : Token) (m : Machine) :
    x.inArgument.expand μ t m = (x.expand μ t >>= fun _ => do
      if (← get).waiting = .frozenRelax :: t :: m.waiting then throw .interruption) m :=
  bind_of_ok (get_apply m) _

end Expander

variable {x y : Nat → Expander}

/-- Where a test is interrupted in front of an argument, there is an alarm; everywhere else,
    expansion makes the input lighter. -/
theorem Partners.inArgument (h : Partners false x y) :
    Partners true (fun n => (x n).inArgument) y where
  fuel_left := h.fuel_left
  fuel_right := h.fuel_right
  expand := by
    intro m t μ hμ hexpandable ht hm
    cases h.expand hμ hexpandable ht hm with
    | @done u m' N hkeeps hexpanded hn =>
      -- The alarm is raised exactly where the expansion gave its own token back, which is the one
      -- way in which a partner may fail to get lighter.
      by_cases hback : m'.waiting = .frozenRelax :: t :: m.waiting
      · refine .stopped N fun n hge => ?_
        have halarm : (x n).inArgument.expand μ t m = .error .interruption m' := by
          rw [Expander.inArgument_expand, bind_of_ok (hn n hge).1, bind_of_ok (get_apply m'),
            if_pos hback]
          rfl
        rw [halarm]
        exact .alarm (.inl rfl) _ _
      · refine .done (a := u) N hkeeps ?_ fun n hge => ⟨?_, (hn n hge).2⟩
        · cases hexpanded with
          | lighter hlt => exact .lighter hlt
          | givenBack _ _ hm' =>
            rw [hm', Machine.waiting_feed] at hback
            exact absurd rfl hback
        · rw [Expander.inArgument_expand, bind_of_ok (hn n hge).1, bind_of_ok (get_apply m'),
            if_neg hback]
          rfl
    | stopped N hn =>
      refine .stopped N fun n hge => ?_
      rw [Expander.inArgument_expand]
      exact (hn n hge).bind_left _

namespace Expander

theorem watchedInput_halts (h : Partners false x y) (t : Token) (m : Machine)
    (Q : Unit → Machine → Prop) :
    Halts (fun n => (x n).watchedInput t) (fun n => (y n).expandInput t) m Q := by
  have hinput : ∀ n, (y n).expandInput t = (do
      let u ← expect (← (y n).nextNonSpace?) .fileNotFound []
      let name ← (y n).fileNameFrom u
      checkInputDepth
      tryCatch (includeFile name) fun _ => failAt .fileNotFound t [name]) := by
    intro n
    rw [expandInput, scanFileName_eq]
    simp only [bind_assoc]
  simp only [hinput]
  refine (nextNonSpace?_halts h m).required fun u m₁ _ => ?_
  have hname : Halts
      (fun n => (if u.hasCat .beginGroup then (x n).inArgument else x n).fileNameFrom u)
      (fun n => (y n).fileNameFrom u) m₁ fun _ _ => True := by
    split
    · exact fileNameFrom_halts h.inArgument (fun _ => rfl) m₁
    · rename_i hbrace
      exact fileNameFrom_halts h (fun hu => absurd hu hbrace) m₁
  refine hname.bind fun name m₂ _ _ => .checkInputDepth fun _ => .stopped 0 fun _ _ => ?_
  -- A file that is found is opened by the engine, and makes the observer raise an alarm.
  have hopen := tryCatch_apply (includeFile name) (fun _ => failAt .fileNotFound t [name]) m₂
  cases hfile : includeFile name m₂ with
  | ok u m₃ =>
    rw [hfile] at hopen
    rw [bind_of_ok hopen]
    exact .alarm (.inr rfl) m₃ _
  | error f m₃ =>
    rw [hfile] at hopen
    have hmissing : tryCatch (includeFile name) (fun _ => failAt .fileNotFound t [name]) m₂ =
        .error (.tex { kind := .fileNotFound, details := [name], token := some t }) m₃ := hopen
    rw [bind_of_error hmissing, hmissing]
    exact .error (by simp) m₃

/-- One expansion makes the input lighter, or gives a token back. -/
theorem watchedPerform_halts (h : Partners false x y) {m : Machine} {t : Token} {μ : Meaning}
    (hμ : m.env.meaning? t = some μ) (hexpandable : μ.isExpandable = true)
    (ht : t ≠ .frozenRelax) :
    Halts (fun n => (x n).watchedPerform μ t) (fun n => (y n).perform μ t) m fun _ =>
      Expanded false t m := by
  refine .of_pristine fun hm => ?_
  have hrelax : μ ≠ Meaning.relax := by
    rintro rfl
    contradiction
  obtain ⟨hcs, hmem⟩ := (hm.env.meaning?_cases hμ ht).2.resolve_right hrelax
  -- The token in front weighs what its name weighs, and that is what an expansion may use up.
  have hfront : (m.feed [t]).weight = m.burden + (32 + weight.text μ.name) := by
    rw [hcs, Machine.weight_feed_command m rfl (by simp), weight_cs]
    omega
  have hlight : ∀ {A B : Nat → Eng Unit},
      Halts A B m (fun _ m' => m'.weight < m.burden + (32 + weight.text μ.name)) →
        Halts A B m fun _ => Expanded false t m :=
    fun hle => hle.mono fun _ m' _ hlt => .lighter (hfront ▸ hlt)
  cases μ with
  | expandable p =>
    by_cases hinput : p = .input
    · rw [hinput]
      exact watchedInput_halts h t m _
    by_cases hscan : p = .scantokens
    · have htext : weight.text Expandable.scantokens.name = 18 := by decide
      refine hlight ?_
      rw [hscan]
      refine (expandScanTokens_halts h.inArgument m).mono fun _ m' _ hle => ?_
      rw [Meaning.name, htext]
      omega
    · refine hlight (.congr 0 (fun n _ => ⟨?_, rfl⟩) (expandPrimitive_halts h hinput hscan t m))
      -- The watched expander differs from the ordinary one for \input and \scantokens only.
      cases p <;> first | contradiction | rfl
  | conditional p =>
    refine (expandConditional_halts h p t m).mono fun _ m' _ hcond => ?_
    have hm := m.weight_le_burden
    rcases hcond with hle | ⟨hpending, hback⟩
    · exact .lighter (by omega)
    · exact .givenBack rfl hpending hback
  | defined d => exact absurd hmem (Meaning.defined_not_mem_primitives d)
  | _ => contradiction

/-- Watched expansion is expansion, up to the alarms. -/
theorem partners_watched (depth : Nat) :
    Partners false (fun n => watched n depth) (fun n => ofDepth n depth) := by
  induction depth with
  | zero =>
    simp only [watched, ofDepth_zero]
    exact ⟨fun _ => rfl, fun _ => rfl, fun _ _ _ => (Halts.fail _ _).blame _⟩
  | succ depth ih =>
    simp only [watched, ofDepth_succ]
    refine ⟨fun _ => rfl, fun _ => rfl, fun {m t μ} hμ hexpandable ht => .blame t ?_⟩
    refine (watchedPerform_halts ih hμ hexpandable ht).bind fun _ m' _ hexpanded => ?_
    refine .look (get_apply m') ?_
    split
    · exact .fail _ _
    · exact .pure hexpanded

end Expander

end TexEngine
