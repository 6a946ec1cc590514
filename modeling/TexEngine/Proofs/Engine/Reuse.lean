/-
  TexEngine.Proofs.Engine.Reuse

  An engine can be used again after every run, however the run ends.  Three things hold only
  for a while: a conditional is marked while its test is evaluated, modifiers wait for their
  command, and expansions are counted while they go on inside of one another.

  The marks are a matter of whole expansions (`Settling`), since nothing else changes the
  conditional stack.  Modifiers are set and taken back by the loop that executes a token,
  and all else between two commands leaves them alone.  The count of expansions goes up and
  down inside of one operation (`Eng.nested`), so that every operation that is built from others
  leaves it alone, at the count from which it started (`Levels.Parallel`).
-/
import TexEngine.Proofs.Engine.History.Execute
import TexEngine.Proofs.Engine.WithinLimits

namespace TexEngine

open Eng Discipline

/-! ## Modifiers -/

/-- The discipline of what an engine does between two commands: where no modifier was set,
    none is set. -/
def Discipline.unmodified : Discipline where
  rel := fun m m' => m.modifiers = {} → m'.modifiers = {}
  refl := fun _ => id
  trans := fun h h' => h' ∘ h
  good := fun _ => True
  good_of_rel := fun _ _ => True.intro
  inv := fun _ => True

namespace Expander

variable {α : Type} {x : Expander}

/-- Expansion has nothing to do with modifiers. -/
theorem unmodified_of_expands {act : Eng α} (h : ∀ m : Machine, m.Expands (act.after m)) :
    Spec unmodified True act fun _ => True := by
  refine .of_rel_after (fun _ => True.intro) fun m hm => ?_
  have happart : (act.after m).apart.modifiers = m.apart.modifiers := by rw [(h m).apart]
  exact happart.trans hm

/-- Behind a command, no modifier is set, whatever was set in front of it. -/
theorem modifiers_execute (x : Expander) (t : Token) (m : Machine) :
    ((x.execute t).after m).modifiers = {} := by
  rw [after_execute]

theorem run_unmodified (hx : x.Disciplined) : Spec unmodified True x.run fun _ => True := by
  have hpush : ∀ {P : Prop} ts, Spec unmodified P (push ts) fun _ => True :=
    fun _ => .of_rel_after (fun _ => True.intro) fun _ => id
  have hexecute : ∀ t, Spec unmodified True (x.execute t) fun _ => True :=
    fun t => .of_rel_after (fun _ => True.intro) fun m _ => modifiers_execute x t m
  exact spec_run (Spec.get.seq fun _ => .done) (fun _ => hpush _)
    (unmodified_of_expands (next?_spec (P := True) hx).rel_after) hexecute

end Expander

/-! ## Idle engines -/

/-- No test is pending, no modifier waits for a command, and no expansion is going on. -/
structure Machine.Idle (m : Machine) : Prop where
  settled : ∀ c ∈ m.env.conditionals, c.pending = false
  unmodified : m.modifiers = {}
  outermost : m.depth = 0

theorem Eng.after_run (fuel : Nat) (m : Machine) : (run fuel).after m =
    (Expander.ofDepth fuel m.limits.expansionDepth).run.after m := by
  rw [after, after, run, withExpander, bind_of_ok (get_apply m)]

/-- A run leaves the count of expansions as it was, also where it fails inside of many. -/
theorem Eng.depth_run (fuel : Nat) (m : Machine) : ((run fuel).after m).depth = m.depth := by
  rw [after_run]
  exact (Levels.run_parallel (ℓ := ⟨m.depth, m.depth, m.limits⟩)
    (Levels.ofDepth_parallel fuel _)).depth_after

theorem Machine.Idle.run {m : Machine} (h : m.Idle) (fuel : Nat) :
    ((Eng.run fuel).after m).Idle where
  settled := ((Eng.run_recorded fuel).pending m).forall_mem h.settled
  unmodified := by
    have hrun := Expander.run_unmodified (Expander.ofDepth_disciplined fuel m.limits.expansionDepth)
    rw [Eng.after_run]
    exact hrun.rel_after m h.unmodified
  outermost := (Eng.depth_run fuel m).trans h.outermost

/-- Between two runs, an engine is idle. -/
theorem Setup.Reaches.idle {s : Setup} {m : Machine} (h : s.Reaches m) : m.Idle := by
  induction h with
  | start => exact ⟨Array.forall_mem_empty _, rfl, rfl⟩
  | pushText h text name ih =>
    obtain ⟨es, hpush⟩ := pushText_apply text name _
    rw [after_of_ok hpush]
    exact ⟨ih.settled, ih.unmodified, ih.outermost⟩
  | run h fuel ih => exact ih.run fuel

namespace Eng

/-- Whatever comes of a run, no test is pending behind it that was not pending in front of
    it, no modifier is set, and no expansion is counted; this is so also if the run was stopped
    inside of an expansion.  As many expansions as before may go on inside of one another then,
    whether the levels that are left are counted or the count is compared with the limit.
    Neither does a command that fails leave its modifiers to the next one. -/
theorem run_reusable {m : Machine} (hsettled : ∀ c ∈ m.env.conditionals, c.pending = false)
    (hmodifiers : m.modifiers = {}) (hdepth : m.depth = 0) (fuel : Nat) :
    let m' := (run fuel).after m
    (∀ c ∈ m'.env.conditionals, c.pending = false) ∧
      m'.modifiers = {} ∧
      m'.depth = 0 ∧
      m'.limits = m.limits ∧
      (∀ stop, ((Expander.countedRun stop fuel).after m).depth = 0) ∧
      (∀ fuel', ∀ levels > m.limits.expansionDepth,
        (Expander.comparing fuel' levels).run m' = run fuel' m') ∧
      ∀ (x : Expander) t p, ((x.execute t).after p).modifiers = {} := by
  intro m'
  have hidle : m'.Idle := Machine.Idle.run ⟨hsettled, hmodifiers, hdepth⟩ fuel
  have hlimits : m'.limits = m.limits := by
    have hadvances : m.Advances ((Expander.ofDepth fuel m.limits.expansionDepth).run.after m) :=
      Expander.advances_run (Expander.ofDepth_keepsTo advancing fuel _) m
    rw [← hadvances.limits, ← after_run]
  refine ⟨hidle.settled, hidle.unmodified, hidle.outermost, hlimits, fun stop => ?_,
    fun fuel' levels hlevels => ?_, Expander.modifiers_execute⟩
  · rw [Expander.depth_countedRun, hdepth]
  · rw [← hlimits] at hlevels
    exact Expander.comparing_run hidle.outermost hlevels

/-- An engine in front of an assignment that fails: in its value, a conditional is open whose
    test reads up to the end of the input. -/
def interrupting : Machine :=
  { env :=
      { codes := Std.TreeMap.ofList [("global", Meaning.modifier .isGlobal),
          ("count", .register .count 0), ("ifnum", .conditional (.test .number))] }
    input := Source.push {} [.cs "global", .cs "count", .cs "ifnum", .other 49] }

/-- The run fails inside of an expansion, while the test is pending and the modifier is set.
    The conditional stays open, but nothing else stays behind. -/
theorem run_reusable_interrupting :
    (∀ c ∈ interrupting.env.conditionals, c.pending = false) ∧ interrupting.modifiers = {} ∧
      interrupting.depth = 0 ∧
      (run 9).value? interrupting = none ∧
      ((run 9).after interrupting).env.conditionals.size = 1 ∧
      (∀ c ∈ ((run 9).after interrupting).env.conditionals, c.pending = false) ∧
      ((run 9).after interrupting).modifiers = {} ∧
      ((run 9).after interrupting).depth = 0 := by
  have hsettled : ∀ c ∈ interrupting.env.conditionals, c.pending = false :=
    Array.forall_mem_empty _
  have hmodifiers : interrupting.modifiers = {} := rfl
  have hdepth : interrupting.depth = 0 := rfl
  obtain ⟨hidle, hunmodified, houtermost, -⟩ := run_reusable hsettled hmodifiers hdepth 9
  refine ⟨hsettled, hmodifiers, hdepth, ?_, ?_, hidle, hunmodified, houtermost⟩
  · decide +kernel
  · decide +kernel

end Eng

end TexEngine
