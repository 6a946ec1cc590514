/-
  TexEngine.Proofs.Engine.Ending.ReadAll

  A fresh engine reads any text with expansion in finitely many steps, up to its end or
  an error, unless the observer raises an alarm.  At the outermost level nothing is
  interrupted, because no conditional is waiting there for the end of its test.
-/
import TexEngine.Proofs.Engine.Ending.Watched

namespace TexEngine

open Eng Gauge

/-- Reads all input with expansion, and gives the tokens that cannot be expanded any
    further. -/
def Expander.readAll (x : Expander) : Eng TokenList :=
  iterate (fun ts => do
    match ← x.next? with
    | none => return .done ts.reverse
    | some t => return .again (t :: ts)) x.fuel []

/-- Runs an operation that needs an expander, at the outermost level and under
    observation. -/
def Eng.withWatched {α : Type} (fuel : Nat) (act : Expander → Eng α) : Eng α := do
  act (Expander.watched fuel (← get).limits.expansionDepth)

/-! ## The outermost level -/

/-- No conditional is waiting for the end of its test. -/
def Machine.AtRest (m : Machine) : Prop :=
  ∀ (i : Nat) (c : Conditional), m.env.conditionals[i]? = some c → c.pending = false

theorem Machine.AtRest.not_interruptible {m : Machine} (h : m.AtRest) : ¬m.Interruptible := by
  rintro ⟨c, hc, hpending⟩
  rw [Array.back?_eq_getElem?] at hc
  rw [h _ c hc] at hpending
  contradiction

theorem Machine.AtRest.keep {m m' : Machine} (h : m.AtRest) (hkeeps : m.Keeps m') : m'.AtRest := by
  intro i c hc
  by_contra hpending
  obtain ⟨c₀, hc₀, hpending₀⟩ := hkeeps.pending i c hc (by simpa using hpending)
  rw [h i c₀ hc₀] at hpending₀
  contradiction

theorem Halts.kept {α : Type} {A B : Nat → Eng α} {m : Machine} {Q : α → Machine → Prop}
    (h : Halts A B m Q) : Halts A B m fun a m' => m.Keeps m' ∧ Q a m' :=
  fun hm => (h hm).mono fun _ _ hkeeps hQ => ⟨hkeeps, hQ⟩

theorem Expander.readAll_halts {x y : Nat → Expander} (h : Partners false x y) {m₀ : Machine}
    (hrest : m₀.AtRest) :
    Halts (fun n => (x n).readAll) (fun n => (y n).readAll) m₀ fun _ _ => True := by
  refine Halts.iterate h.fuel_left h.fuel_right (I := fun _ m => m.AtRest) (fun _ m => m.span)
    (fun ts m hI => ?_) hrest
  refine (next?_halts h m).kept.bind fun t? m' _ hread => ?_
  have hrest' := hI.keep hread.1
  cases t? with
  | none => exact .pure True.intro
  | some t => exact .pure ⟨hrest', (hread.2.2 t rfl).span_lt fun _ => hrest'.not_interruptible⟩

/-! ## Fresh engines -/

/-- Only a few characters have special categories at first. -/
theorem Catcode.initexDefault_cases (unicode : Bool) (c : CharCode) :
    (initexDefault unicode c = .escape → c = 92) ∧ initexDefault unicode c ≠ .superscript ∧
      (initexDefault unicode c = .endOfLine → c = 13) := by
  unfold initexDefault
  grind

theorem Catcode.default_cases (preset : Preset) (unicode : Bool) (c : CharCode) :
    (default preset unicode c = .escape → c = 92) ∧
      (default preset unicode c = .superscript → c = 94) ∧
      (default preset unicode c = .endOfLine → c = 13) := by
  obtain ⟨hescape, hsuperscript, hend⟩ := initexDefault_cases unicode c
  cases preset with
  | initex => exact ⟨hescape, fun h => absurd h hsuperscript, hend⟩
  | plain =>
    unfold default plainDefault
    grind

namespace Setup

theorem charParameter_machine (s : Setup) (name : String)
    (hname : name ∉ ["time", "day", "month", "year"]) :
    s.machine.env.charParameter name =
      ({ counts := Env.initialCounts } : Env Meaning).charParameter name := by
  simp only [List.mem_cons, List.not_mem_nil, or_false, not_or] at hname
  obtain ⟨htime, hday, hmonth, hyear⟩ := hname
  have hcount : s.machine.env.count name =
      ({ counts := Env.initialCounts } : Env Meaning).count name := by
    rw [env_machine, Env.count]
    simp only [Std.TreeMap.getD_insert, Std.LawfulEqCmp.compare_eq_iff_eq, Ne.symm htime,
      Ne.symm hday, Ne.symm hmonth, Ne.symm hyear, if_false]
    rfl
  rw [Env.charParameter, hcount]
  rfl

theorem catcode_machine (s : Setup) (c : CharCode) : s.machine.env.catcode c =
    Catcode.default s.options.preset s.options.unicodeLetters c := by
  rw [env_machine, Env.catcode]
  exact Std.TreeMap.getD_emptyc

theorem ordinary_machine (s : Setup) : s.machine.env.lexicon.Ordinary := by
  have hcatcode : ∀ c, s.machine.env.lexicon.catcode c = _ := s.catcode_machine
  refine ⟨fun c hc => ?_, fun c hc => ?_, fun c hc => ?_, ?_⟩
  · exact (Catcode.default_cases _ _ c).1 ((hcatcode c).symm.trans hc)
  · exact (Catcode.default_cases _ _ c).2.1 ((hcatcode c).symm.trans hc)
  · exact (Catcode.default_cases _ _ c).2.2 ((hcatcode c).symm.trans hc)
  · have hend : ∀ env : Env Meaning,
        env.lexicon.endLineChar () = env.charParameter "endlinechar" := fun _ => rfl
    rw [hend, s.charParameter_machine "endlinechar" (by decide)]
    decide +kernel

theorem pristine_env (s : Setup) : s.machine.env.Pristine where
  lexicon := s.ordinary_machine
  code _ _ hμ := .inl hμ
  active _ := Std.TreeMap.getElem?_emptyc
  escape := (s.charParameter_machine "escapechar" (by decide)).trans (by decide +kernel)
  dimen _ := Std.TreeMap.getD_emptyc
  glue _ := Std.TreeMap.getD_emptyc
  toks _ := Std.TreeMap.getD_emptyc
  font := rfl

/-- An engine that has just got its first text. -/
def withText (s : Setup) (text name : String) : Machine :=
  (pushText text name).after s.machine

/-- An engine that has been given nothing but a text as its input reads all of it with
    expansion in finitely many steps, and gets to its end or fails with an error, unless
    the observer raises an alarm. -/
theorem readAll_ends (s : Setup) (hjob : s.machine.jobName = Machine.defaultJobName)
    (text name : String) :
    ∃ N, ∀ n ≥ N,
      (∃ f m, withWatched n Expander.readAll (s.withText text name) = .error f m ∧ f.IsAlarm) ∨
        withExpander n Expander.readAll (s.withText text name) =
            withWatched n Expander.readAll (s.withText text name) ∧
          ∀ m, withExpander n Expander.readAll (s.withText text name) ≠ .error .outOfFuel m := by
  obtain ⟨es, hopen⟩ := pushText_apply text name s.machine
  have hstart : s.withText text name =
      Machine.note { s.machine with input := s.machine.input.pushText text name } es :=
    after_of_ok hopen
  have hrest : (s.withText text name).AtRest := by
    intro i c hc
    rw [hstart] at hc
    simp [Machine.note, env_machine, Env.initial] at hc
  have hpristine : (s.withText text name).Pristine := by
    rw [hstart]
    exact ⟨s.pristine_env, hjob⟩
  have hreads := Expander.readAll_halts
    (Expander.partners_watched (s.withText text name).limits.expansionDepth) hrest hpristine
  have hwatched := fun n => bind_of_ok (get_apply (s.withText text name)) fun m =>
    (Expander.watched n m.limits.expansionDepth).readAll
  have hplain := fun n => bind_of_ok (get_apply (s.withText text name)) fun m =>
    (Expander.ofDepth n m.limits.expansionDepth).readAll
  cases hreads with
  | done N _ _ h =>
    refine ⟨N, fun n hn => .inr ?_⟩
    unfold withWatched withExpander
    rw [hwatched, hplain, (h n hn).1, (h n hn).2]
    exact ⟨rfl, fun _ hfuel => by contradiction⟩
  | stopped N h =>
    refine ⟨N, fun n hn => ?_⟩
    unfold withWatched withExpander
    rw [hwatched, hplain]
    have hn := h n hn
    generalize (Expander.watched n _).readAll (s.withText text name) = r at hn ⊢
    generalize (Expander.ofDepth n _).readAll (s.withText text name) = r' at hn ⊢
    cases hn with
    | error hf m =>
      -- The error is one that both expanders meet.
      refine .inr ⟨rfl, fun m' hfuel => ?_⟩
      injection hfuel with hfuel
      exact hf hfuel
    | alarm hf m => exact .inl ⟨_, m, rfl, hf⟩

/-- There is nothing to raise an alarm in a conditional. -/
theorem readAll_ends_conditional :
    ({} : Setup).machine.jobName = Machine.defaultJobName ∧
      (∃ N, ∀ n ≥ N,
        (∃ f m, withWatched n Expander.readAll (({} : Setup).withText "\\ifnum1<2 a\\fi" "t") =
          .error f m ∧ f.IsAlarm) ∨
        withExpander n Expander.readAll (({} : Setup).withText "\\ifnum1<2 a\\fi" "t") =
            withWatched n Expander.readAll (({} : Setup).withText "\\ifnum1<2 a\\fi" "t") ∧
          ∀ m, withExpander n Expander.readAll (({} : Setup).withText "\\ifnum1<2 a\\fi" "t") ≠
            .error .outOfFuel m) ∧
      (withWatched 20 Expander.readAll).value? (({} : Setup).withText "\\ifnum1<2 a\\fi" "t") =
        some [.letter 97] :=
  ⟨rfl, readAll_ends {} rfl "\\ifnum1<2 a\\fi" "t", by decide +kernel⟩

end Setup

end TexEngine
