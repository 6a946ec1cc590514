/-
  TexEngine.Proofs.Engine.WithinLimits

  The limits bound every run.  Three resources are limited: the streams that are open, the
  expansions that are going on inside of one another, and the tokens that wait in the input
  behind an expansion.

  Streams are counted by the input itself.  All changes of the input that a run makes are
  those of `Source.Change`, which keep the number of streams within the limit: where a text
  or a file is opened, the limit was checked right before.  That putting tokens back opens a
  stream as well is harmless, since it does so only if there is none.

  Expansions are counted by the engine.  The expanders of all depths know how many levels are
  left, and do not look at the count; but there are always as many levels left as the count lies
  below the limit, so that nothing would change if they did (`comparing_run`).

  The expanders below may stop the run whenever an expansion begins or ends, depending on the
  state, so that what holds behind such a run holds at all these moments of the ordinary one.
-/
import TexEngine.Proofs.Engine.Depth.Execute
import TexEngine.Proofs.Engine.Legal.Execute
import TexEngine.Proofs.Engine.PendingTest

namespace TexEngine

open Eng Discipline Levels

/-! ## Runs change the input within the limits -/

/-- The discipline of execution within the limits. -/
def Discipline.limited : Discipline where
  rel := fun m m' => m.observed.highest ≤ m'.observed.highest ∧ m.Advances m'
  refl := fun m => ⟨Nat.le_refl _, .refl m⟩
  trans := fun h h' => ⟨Nat.le_trans h.1 h'.1, h.2.trans h'.2⟩
  good := Machine.LevelsInRange
  good_of_rel := fun h hgood => Nat.lt_of_le_of_lt h.1 hgood
  inv := Machine.Legal

instance : Executing limited :=
  ⟨rfl, rfl, fun h h' => ⟨h, h'⟩⟩

/-- Whatever expander is used, a run stays within the limits if its expansions do. -/
theorem Expander.advances_run {x : Expander} (hx : x.KeepsTo advancing) (m : Machine) :
    m.Advances (x.run.after m) := by
  have hrun : Spec limited True x.run fun _ => True := run_spec hx
  exact (hrun.rel_after m).2

namespace Expander

/-! ## Counting expansions -/

/-- The expanders that look at the count: an expansion that makes it exceed the limit fails.
    They can be nested as often as there are levels; with more levels than the limit allows,
    that is never what ends a run. -/
def comparing (fuel : Nat) : Nat → Expander
  | 0 => { fuel, expand := fun _ _ => throw .outOfFuel }
  | levels + 1 =>
    { fuel, expand := fun μ t => nested do
        let m ← get
        if m.depth > m.limits.expansionDepth then tooDeep t
        else step (comparing fuel levels) μ t }

/-- The expanders of all depths, but expansions may be stopped where they begin and where they
    end.  An expansion that is too deep does not take place. -/
def counted (stop : Machine → Option Fault) (fuel : Nat) : Nat → Expander
  | 0 => ofDepth fuel 0
  | depth + 1 =>
    { fuel, expand := fun μ t => nested (stopping stop (step (counted stop fuel depth) μ t)) }

/-- A run whose expansions may be stopped. -/
def countedRun (stop : Machine → Option Fault) (fuel : Nat) : Eng Unit := do
  (counted stop fuel (← get).limits.expansionDepth).run

variable {stop stop' : Machine → Option Fault} {fuel depth : Nat} {ℓ : Levels}

/-- Expanders that are never stopped are the ordinary ones. -/
theorem counted_never (fuel depth : Nat) :
    counted (fun _ => none) fuel depth = ofDepth fuel depth := by
  induction depth with
  | zero => rfl
  | succ depth ih => simp only [counted, ofDepth, stopping_never, ih]

/-- With `depth` levels left, the count is at the limit when none is left; so it is the same
    whether the levels are counted or the count is compared with the limit. -/
theorem comparing_parallel {levels : Nat} (hdepth : ℓ.right + depth = ℓ.limits.expansionDepth)
    (hlevels : depth < levels) : ℓ.Expanders (ofDepth fuel depth) (comparing fuel levels) := by
  induction depth generalizing ℓ levels with
  | zero =>
    obtain ⟨levels, rfl⟩ := Nat.exists_eq_add_one_of_ne_zero (Nat.ne_of_gt hlevels)
    refine ⟨rfl, fun μ t => ?_⟩
    show ℓ.Parallel (nested (tooDeep t)) (nested _)
    refine .nested (.get_right fun m hm hl => ?_)
    have hover : m.depth > m.limits.expansionDepth := by
      rw [hm, hl]
      exact Nat.lt_succ_of_le (Nat.le_of_eq hdepth.symm)
    rw [if_pos hover]
    exact tooDeep_parallel t
  | succ depth ih =>
    obtain ⟨levels, rfl⟩ := Nat.exists_eq_add_one_of_ne_zero (Nat.ne_zero_of_lt hlevels)
    refine ⟨rfl, fun μ t => .nested (.get_right fun m hm hl => ?_)⟩
    have hunder : ¬m.depth > m.limits.expansionDepth := by
      rw [hm, hl]
      show ¬ℓ.right + 1 > ℓ.limits.expansionDepth
      omega
    rw [if_neg hunder]
    have hdeeper : ℓ.deeper.right + depth = ℓ.deeper.limits.expansionDepth :=
      (Nat.succ_add_eq_add_succ ..).trans hdepth
    exact step_parallel (ih hdeeper (Nat.lt_of_succ_lt_succ hlevels)) μ t

theorem fuel_counted (stop : Machine → Option Fault) (fuel depth : Nat) :
    (counted stop fuel depth).fuel = fuel := by
  cases depth with
  | zero => rfl
  | succ depth => rfl

theorem stopIf_parallel (hcounts : ℓ.left = ℓ.right)
    (hstop : ∀ m, m.depth = ℓ.right → stop' m = stop m) :
    ℓ.Parallel (stopIf stop) (stopIf stop') := by
  refine .get_bind fun m m' hm => ?_
  rw [hm.eq_of_left_eq hcounts, hstop m (hm.depth.trans hcounts)]
  split
  · exact .throw _
  · exact .pure ()

theorem stopping_parallel {act act' : Eng Unit} (hact : ℓ.Parallel act act')
    (hends : ℓ.Parallel (stopIf stop) (stopIf stop')) :
    ℓ.Parallel (stopping stop act) (stopping stop' act') :=
  hends.bind fun _ => hact.bind fun _ => hends

/-- With `depth` levels left, the count never gets further from where it is. -/
theorem counted_parallel (hcounts : ℓ.left = ℓ.right)
    (hstop : ∀ m, m.depth ≤ ℓ.right + depth → stop' m = stop m) :
    ℓ.Expanders (counted stop fuel depth) (counted stop' fuel depth) := by
  induction depth generalizing ℓ with
  | zero => exact ofDepth_parallel fuel 0
  | succ depth ih =>
    have hcounts' : ℓ.deeper.left = ℓ.deeper.right := congrArg (· + 1) hcounts
    have hends : ℓ.deeper.Parallel (stopIf stop) (stopIf stop') := by
      refine stopIf_parallel hcounts' fun m hm => hstop m ?_
      rw [hm]
      exact Nat.add_le_add_left (Nat.succ_le_succ (Nat.zero_le depth)) ℓ.right
    have hdeeper := ih (ℓ := ℓ.deeper) hcounts' fun m hm => hstop m (hm.trans (Nat.le_of_eq
      (Nat.succ_add_eq_add_succ ..)))
    refine ⟨?_, fun μ t => .nested (stopping_parallel (step_parallel hdeeper μ t) hends)⟩
    rw [fuel_counted, fuel_counted]

/-- A run may be stopped in any way where the count would exceed the limit: it never does. -/
theorem countedRun_congr {m : Machine}
    (hstop : ∀ p, p.depth ≤ m.depth + m.limits.expansionDepth → stop' p = stop p) :
    countedRun stop' fuel m = countedRun stop fuel m := by
  rw [countedRun, countedRun, bind_of_ok (get_apply m), bind_of_ok (get_apply m)]
  exact (run_parallel (ℓ := ⟨m.depth, m.depth, m.limits⟩) (counted_parallel rfl hstop)).apply_eq

/-- Where no expansion is going on, the count may be compared with the limit. -/
theorem comparing_run {m : Machine} (hm : m.depth = 0) {levels : Nat}
    (hlevels : m.limits.expansionDepth < levels) :
    (comparing fuel levels).run m = Eng.run fuel m := by
  rw [Eng.run, withExpander, bind_of_ok (get_apply m)]
  have hdepth : m.depth + m.limits.expansionDepth = m.limits.expansionDepth := by
    rw [hm, Nat.zero_add]
  exact (run_parallel (ℓ := ⟨m.depth, m.depth, m.limits⟩)
    (comparing_parallel hdepth hlevels)).apply_eq

/-- However a run is stopped, it leaves the count as it was. -/
theorem depth_countedRun (stop : Machine → Option Fault) (fuel : Nat) (m : Machine) :
    ((countedRun stop fuel).after m).depth = m.depth := by
  rw [after, countedRun, bind_of_ok (get_apply m)]
  exact (run_parallel (ℓ := ⟨m.depth, m.depth, m.limits⟩)
    (counted_parallel rfl fun _ _ => rfl)).depth_after

/-- Expansions that are counted and stopped keep to the disciplines of expansion. -/
theorem counted_keepsTo (D : Discipline) [Branching D] (stop : Machine → Option Fault)
    (fuel depth : Nat) : (counted stop fuel depth).KeepsTo D := by
  induction depth with
  | zero => exact ofDepth_keepsTo D fuel 0
  | succ depth ih =>
    intro P μ t hμ ht
    exact nested_spec (stopping_spec _ (step_spec ih (expandConditional_spec ih) hμ ht))

/-- An expansion that succeeds has left no more tokens in the input than the limit allows:
    this is checked at its end. -/
theorem pending_of_step {x : Expander} {μ : Meaning} {t : Token} {m m' : Machine}
    (h : step x μ t m = .ok () m') : m'.input.pending ≤ m'.limits.pushback := by
  have hinner : (do
      x.perform μ t
      let s ← get
      if s.input.pending > s.limits.pushback then fail .recursionTooDeep ["input buffer"] :
        Eng Unit) m = .ok () m' := by
    unfold step blame at h
    split at h
    · rename_i hact
      exact hact.trans h
    · contradiction
    · contradiction
  obtain ⟨u, m₁, -, hcheck⟩ := exists_of_bind_eq_ok hinner
  rw [bind_of_ok (get_apply m₁)] at hcheck
  split at hcheck
  · contradiction
  · rename_i hpending
    injection hcheck with _ hm
    rw [← hm]
    exact Nat.not_lt.mp hpending

theorem eq_of_stopIf {stop : Machine → Option Fault} {m m' : Machine}
    (h : stopIf stop m = .ok () m') : m' = m := by
  rw [stopIf, bind_of_ok (get_apply m)] at h
  cases hstop : stop m with
  | some f =>
    rw [hstop] at h
    contradiction
  | none =>
    rw [hstop] at h
    injection h with _ hm
    exact hm.symm

theorem pending_of_counted {μ : Meaning} {t : Token} {m m' : Machine}
    (h : (counted stop fuel depth).expand μ t m = .ok () m') :
    m'.limits = m.limits ∧ m'.input.pending ≤ m.limits.pushback := by
  have hadvances : m.Advances m' := by
    have hspec := counted_keepsTo advancing stop fuel depth (P := False) (μ := μ) (t := t)
      False.elim False.elim
    have hrel := (hspec.rel_after m).2
    rwa [after_of_ok h] at hrel
  refine ⟨hadvances.limits, ?_⟩
  cases depth with
  | zero => contradiction
  | succ depth =>
    obtain ⟨n, hinner, rfl⟩ := exists_of_nested_eq_ok h
    obtain ⟨_, m₁, -, hrest⟩ := exists_of_bind_eq_ok hinner
    obtain ⟨_, m₂, hstep, hstop⟩ := exists_of_bind_eq_ok hrest
    have hpending := pending_of_step hstep
    rw [← eq_of_stopIf hstop] at hpending
    rwa [← hadvances.limits]

end Expander

/-! ## Every moment of a run -/

namespace Eng

open Expander

/-- The limits bound every run.  Wherever the run is stopped, no more streams are open than
    the limit allows, nor were there on the way.  The count of expansions never exceeds its
    limit, so that it does not matter what would stop the run there; it is as it was in front of
    the run, and the run is the one in which it is compared with the limit.  An expansion that
    succeeds leaves no more tokens in the input than its limit allows.  If nothing is ever
    stopped, this is the ordinary run.  That the limit of streams is not zero is how engines are
    set up. -/
theorem run_within_limits (stop : Machine → Option Fault) (fuel : Nat) {m : Machine}
    (hlimit : 0 < m.limits.inputDepth) (hdepth : m.input.depth ≤ m.limits.inputDepth) :
    let m' := (countedRun stop fuel).after m
    countedRun (fun _ => none) fuel = run fuel ∧
      m'.limits = m.limits ∧
      m'.depth = m.depth ∧
      m'.input.depth ≤ m.limits.inputDepth ∧
      (∃ path, m.input.Passes m.limits.inputDepth path m'.input ∧
        ∀ src ∈ path, src.depth ≤ m.limits.inputDepth) ∧
      (∀ stop', (∀ p, p.depth ≤ m.depth + m.limits.expansionDepth → stop' p = stop p) →
        countedRun stop' fuel m = countedRun stop fuel m) ∧
      (m.depth = 0 → ∀ levels > m.limits.expansionDepth,
        (comparing fuel levels).run m = run fuel m) ∧
      ∀ depth μ t p p', (counted stop fuel depth).expand μ t p = .ok () p' →
        p'.input.pending ≤ p.limits.pushback := by
  intro m'
  let x := counted stop fuel m.limits.expansionDepth
  have hx : x.KeepsTo advancing := counted_keepsTo advancing stop fuel _
  have hadvances : m.Advances m' := by
    show m.Advances (after _ m)
    rw [after, countedRun, bind_of_ok (get_apply m)]
    exact advances_run hx m
  obtain ⟨path, hpath⟩ := hadvances.input
  obtain ⟨hlast, hall⟩ := hpath.depth_le hlimit hdepth
  refine ⟨?_, hadvances.limits, depth_countedRun stop fuel m, hlast, ⟨path, hpath, hall⟩,
    fun stop' => countedRun_congr, fun hm levels => comparing_run hm, ?_⟩
  · funext p
    rw [countedRun, run, withExpander, bind_of_ok (get_apply p), bind_of_ok (get_apply p),
      counted_never]
  · exact fun _ _ _ _ _ h => (pending_of_counted h).2

/-- An engine with a macro \a that reads itself again, in front of \a, and with room for three
    streams. -/
def rescanning : Machine :=
  let body : TokenList :=
    [.cs "scantokens", .char 123 .beginGroup, .cs "a", .char 125 .endGroup]
  { env :=
      { codes := Std.TreeMap.ofList [("a", Meaning.defined { body }),
          ("scantokens", .expandable .scantokens)]
        counts := Std.TreeMap.ofList [("escapechar", (92 : Int64))] }
    input := Source.push {} [.cs "a"]
    limits := { inputDepth := 3 } }

/-- The last stream that the limit allows is opened, and no further one. -/
theorem run_within_limits_rescanning :
    0 < rescanning.limits.inputDepth ∧ rescanning.input.depth ≤ rescanning.limits.inputDepth ∧
      ((run 9).after rescanning).input.depth = 3 := by
  have hlimit : 0 < rescanning.limits.inputDepth := by decide
  have hdepth : rescanning.input.depth ≤ rescanning.limits.inputDepth := by decide
  obtain ⟨hrun, -, -, hle, -⟩ := run_within_limits (fun _ => none) 9 hlimit hdepth
  rw [hrun] at hle
  have hreached : 3 ≤ ((run 9).after rescanning).input.depth := by decide +kernel
  exact ⟨hlimit, hdepth, Nat.le_antisymm hle hreached⟩

end Eng

end TexEngine
