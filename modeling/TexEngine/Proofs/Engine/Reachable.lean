/-
  TexEngine.Proofs.Engine.Reachable

  The states that an engine can reach.  As long as line numbers and nesting levels are
  in range where they are read as numbers, all of these states are legal: nothing that
  jobs assign, compute or restore leaves its range, and no operation on words wraps
  around on the way.  What the clock shows when the engine is set up is the only thing
  from outside that gets into a register; it is required to be in range.
-/
import TexEngine.Proofs.Engine.Jobs
import TexEngine.Proofs.Engine.Legal.Execute

namespace TexEngine

open Discipline

/-! ## The state at the beginning -/

theorem Meaning.legal_of_mem_primitives {μ : Meaning} (h : μ ∈ primitives) : μ.Legal := by
  simp only [primitives, List.mem_append, List.mem_map, List.mem_singleton] at h
  rcases h with (((((⟨p, -, rfl⟩ | ⟨p, -, rfl⟩) | ⟨q, -, rfl⟩) | ⟨a, -, rfl⟩) | ⟨f, -, rfl⟩) |
    ⟨c, -, rfl⟩) | rfl
  all_goals exact True.intro

theorem Env.legal_initial (preset : Preset) (unicodeLetters : Bool) :
    Env.Legal { Env.initial preset unicodeLetters with codes := Meaning.primitiveTable } where
  counts := Legal.forall_ofList (by decide)
  dimens := by simp [Env.initial]
  glues := by simp [Env.initial]
  toks := by simp [Env.initial]
  codes := by
    refine Legal.forall_ofList fun e he => ?_
    obtain ⟨μ, hμ, rfl⟩ := List.mem_map.mp he
    exact Meaning.legal_of_mem_primitives hμ
  active := by simp [Env.initial]
  catcodes := by simp [Env.initial]
  tables := by
    intro t
    cases t <;> simp [Env.initial, Env.table]
  fonts := by
    intro f n
    have hzero : Dimen.InRange 0 := by decide
    simpa [Env.initial, FontBook.param, FontBook.paramsOf] using hzero
  groups := by simp [Env.initial]
  afterAssignment := by simp [Env.initial]

/-- The time and the date can be stored as integers. -/
structure Clock.InRange (c : Clock) : Prop where
  minute : Count.InRange c.minute
  day : Count.InRange c.day
  month : Count.InRange c.month
  year : Count.InRange c.year

/-- Every number that the clock stores in a parameter is in range. -/
theorem Clock.InRange.legal {c : Clock} (h : c.InRange) : ∀ a ∈ c.assignments, a.Legal := by
  simp only [Clock.assignments, List.forall_mem_cons, Assignment.Legal, Option.mem_some_iff]
  exact ⟨fun n hn => hn ▸ h.minute, fun n hn => hn ▸ h.day, fun n hn => hn ▸ h.month,
    fun n hn => hn ▸ h.year, List.forall_mem_nil _⟩

theorem Env.Legal.assign_foldl {env : Env Meaning} (h : env.Legal)
    {as : List (Assignment Meaning)} (has : ∀ a ∈ as, a.Legal) (global : Bool) :
    (as.foldl (fun env a => env.assign a global) env).Legal := by
  induction as generalizing env with
  | nil => exact h
  | cons a as ih =>
    rw [List.forall_mem_cons] at has
    exact ih (h.assign has.1 global) has.2

theorem Setup.legal_machine {s : Setup} (h : s.clock.InRange) : s.machine.Legal where
  env := (Env.legal_initial s.options.preset s.options.unicodeLetters).assign_foldl h.legal true
  input := by simp [machine, Source.Legal]
  exact := rfl

namespace Machine

/-! ## Reachable states -/

/-- The states that an engine can get into: it is set up at some time, texts are opened
    as input, and jobs are run, whether they succeed, fail or are stopped. -/
def Reachable (m : Machine) : Prop :=
  ∃ s : Setup, s.clock.InRange ∧ s.Reaches m

/-- An operation that keeps to the discipline of execution keeps states legal. -/
theorem legal_after {α : Type} {act : Eng α} {Q : α → Prop} {m : Machine}
    (hact : Eng.Spec executing True act Q) (hm : m.LevelsInRange → m.Legal)
    (hlevels : (act.after m).LevelsInRange) : (act.after m).Legal :=
  hact.inv_after True.intro (hm (executing.good_of_rel (hact.rel_after m) hlevels)) hlevels

theorem Reachable.legal {m : Machine} (h : m.Reachable) (hlevels : m.LevelsInRange) : m.Legal := by
  obtain ⟨s, hclock, h⟩ := h
  induction h with
  | start => exact Setup.legal_machine hclock
  -- In both steps the levels of the earlier state are in range, since `highest` only grows.
  | pushText h text name ih =>
    have hpush := Eng.pushText_spec (P := True) text name
    exact legal_after (hpush.of_rel (fun _ _ h => h.highest_le) rfl rfl) ih hlevels
  | run h fuel ih => exact legal_after (Eng.run_spec fuel) ih hlevels

/-- All values that are kept in a reachable state are in range, and nothing has wrapped
    around; `highest` is the largest line number or nesting level that was read. -/
theorem Reachable.values_in_range {m : Machine} (h : m.Reachable)
    (hlevels : m.observed.highest < 2 ^ 31) :
    (∀ name, Count.InRange (m.env.count name)) ∧
      (∀ name, Dimen.InRange (m.env.dimen name)) ∧
      (∀ f n, Dimen.InRange (m.env.fonts.param f n)) ∧
      (∀ name, (m.env.glue name).IsProper) ∧
      (∀ (c : Int) k, m.env.catcodes[c]? = some k → k ∈ Catcode.all) ∧
      (∀ t (c : Int) n, (m.env.table t)[c]? = some n → t.Allows n) ∧
      m.observed.wrapped = false := by
  have hlegal := h.legal hlevels
  exact ⟨hlegal.env.count, hlegal.env.dimen, hlegal.env.fonts, hlegal.env.glue,
    hlegal.env.catcodes, hlegal.env.tables, hlegal.exact⟩

/-- A job with a group. -/
theorem Reachable.values_in_range_group :
    let m := Setup.afterText "\x7ba\x7d"
    m.Reachable ∧ m.observed.highest < 2 ^ 31 ∧ Count.InRange (m.env.count "endlinechar") := by
  intro m
  have hreachable : m.Reachable :=
    ⟨{ options := { preset := .plain } },
      ⟨by decide, by decide, by decide, by decide⟩, Setup.reaches_afterText _⟩
  have hlevels : m.observed.highest < 2 ^ 31 := by decide +kernel
  exact ⟨hreachable, hlevels, (hreachable.values_in_range hlevels).1 "endlinechar"⟩

end Machine

end TexEngine
