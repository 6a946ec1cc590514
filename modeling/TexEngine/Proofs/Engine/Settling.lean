/-
  TexEngine.Proofs.Engine.Settling

  No test outlasts the expansion that began it.  A conditional is opened with the mark of a
  pending test.  The mark goes when the test ends, whether it succeeds or fails, and nothing
  else sets it: what is pending behind an expansion was pending in front of it.

  This is said of whole conditionals.  In the middle of one, between its beginning and the
  end of its test, one more conditional is pending than before.
-/
import TexEngine.Proofs.Engine.PendingTest

namespace TexEngine

open Eng Discipline

/-- What is pending in the second stack is pending at the same place of the first. -/
def AddsNoPending (cs cs' : Array Conditional) : Prop :=
  ∀ (i : Nat) c', cs'[i]? = some c' → c'.pending = true → ∃ c, cs[i]? = some c ∧ c.pending = true

namespace AddsNoPending

variable {cs cs' cs'' : Array Conditional}

theorem of_eq (h : cs' = cs) : AddsNoPending cs cs' :=
  fun _ c hc hpending => ⟨c, h ▸ hc, hpending⟩

theorem trans (h : AddsNoPending cs cs') (h' : AddsNoPending cs' cs'') : AddsNoPending cs cs'' := by
  intro i c hc hpending
  obtain ⟨c', hc', hpending'⟩ := h' i c hc hpending
  exact h i c' hc' hpending'

theorem pop (cs : Array Conditional) : AddsNoPending cs cs.pop := by
  intro i c hc hpending
  rw [Array.getElem?_pop] at hc
  split at hc
  · exact ⟨c, hc, hpending⟩
  · contradiction

/-- A change of a conditional that leaves the mark alone. -/
theorem modify (i : Nat) (cs : Array Conditional) {f : Conditional → Conditional}
    (hf : ∀ c, (f c).pending = c.pending) : AddsNoPending cs (cs.modify i f) := by
  intro j c hc hpending
  rw [Array.getElem?_modify] at hc
  split at hc
  · obtain ⟨d, hd, rfl⟩ := Option.map_eq_some_iff.mp hc
    exact ⟨d, hd, (hf d).symm.trans hpending⟩
  · exact ⟨c, hc, hpending⟩

theorem settled {i : Nat} (h : Expander.Settled i cs cs') : AddsNoPending cs cs' := by
  rcases h with rfl | ⟨f, hf, rfl⟩
  · exact pop cs
  · exact modify i cs fun c => (hf c).2

/-- The conditional that was opened on top is the only one that a test may have added; at the
    end of the test it is not pending any more. -/
theorem settle {c : Conditional} (h : AddsNoPending (cs.push c) cs') :
    AddsNoPending cs (cs'.modify cs.size fun c => { c with pending := false }) := by
  intro i d hd hpending
  have hne : cs.size ≠ i := by
    rintro rfl
    rw [Array.getElem?_modify, if_pos rfl] at hd
    obtain ⟨d', -, rfl⟩ := Option.map_eq_some_iff.mp hd
    contradiction
  rw [Array.getElem?_modify, if_neg hne] at hd
  obtain ⟨d', hd', hpending'⟩ := h i d hd hpending
  rw [Array.getElem?_push, if_neg (Ne.symm hne)] at hd'
  exact ⟨d', hd', hpending'⟩

/-- Where nothing was pending, nothing is. -/
theorem forall_mem (h : AddsNoPending cs cs') (hcs : ∀ c ∈ cs, c.pending = false) :
    ∀ c ∈ cs', c.pending = false := by
  intro c hc
  obtain ⟨i, hi⟩ := Array.mem_iff_getElem?.mp hc
  cases hpending : c.pending with
  | false => rfl
  | true =>
    obtain ⟨d, hd, hd'⟩ := h i c hi hpending
    rw [hcs d (Array.mem_of_getElem? hd)] at hd'
    contradiction

end AddsNoPending

/-- Expansion that ends all tests that it begins. -/
abbrev Discipline.settling : Discipline :=
  stacking AddsNoPending (fun _ => .of_eq rfl) .trans

namespace Expander

variable {α : Type} {x : Expander}

/-- A conditional ends its test, if the expansions in the test end theirs. -/
theorem addsNoPending_of_opened {name : String} {isCase : Bool} {act : Eng α}
    {choose : Nat → α → Eng Unit} {run : Eng Unit}
    (hrun : run = do
      let i ← openConditional name isCase
      choose i (← whilePending i act))
    (hact : ∀ m, AddsNoPending m.env.conditionals (act.after m).env.conditionals)
    (hchoose : ∀ i a, EndsIn (choose i a) fun _ => Settled i) (m : Machine) :
    AddsNoPending m.env.conditionals (run.after m).env.conditionals := by
  obtain ⟨es, hcases⟩ := opened_cases hrun m
  let m₁ := (m.note es).within (opening m.input.locator name isCase)
  have htested : AddsNoPending m.env.conditionals
      (settle m.env.conditionals.size (act.after m₁)).env.conditionals := (hact m₁).settle
  rcases hcases with ⟨f, m₂, htest, hfail⟩ | ⟨a, m₂, htest, hrest⟩
  · rw [after_of_error htest] at htested
    rwa [after_of_error hfail]
  · rw [after_of_ok htest] at htested
    have hafter : run.after m = (choose m.env.conditionals.size a).after
        (settle m.env.conditionals.size m₂) := by
      rw [after, after, hrest]
    rw [hafter]
    refine htested.trans (EndsIn.after (fun _ => .of_eq rfl) ?_ _)
    exact (hchoose m.env.conditionals.size a).imp fun _ _ _ => .settled

theorem expandConditional_settles (hx : x.KeepsTo settling) (p : CondPrimitive) (t : Token)
    (m : Machine) :
    AddsNoPending m.env.conditionals ((x.expandConditional p t).after m).env.conditionals := by
  have htest : ∀ c m, AddsNoPending m.env.conditionals ((x.test c).after m).env.conditionals :=
    fun c m => ((test_spec (P := True) hx c).rel_after m).2
  have hinteger : ∀ m, AddsNoPending m.env.conditionals (x.scanInteger.after m).env.conditionals :=
    fun m => ((scanInteger_spec (P := True) hx).rel_after m).2
  have hend : ∀ p, EndsIn (x.endBranch p t) fun _ => AddsNoPending :=
    fun p => ends_endBranch x p t (fun _ => .of_eq rfl) fun _ _ => .pop _
  cases p with
  | test c => exact addsNoPending_of_opened rfl (htest c) (ends_ifBranch x) m
  | ifCase => exact addsNoPending_of_opened rfl hinteger (ends_caseBranch x) m
  | _ => exact (hend _).after (fun _ => .of_eq rfl) m

/-- Every expansion ends all tests that it begins, however deep expansions may be nested. -/
theorem ofDepth_settling (fuel depth : Nat) : (ofDepth fuel depth).KeepsTo settling := by
  rw [← interrupted_never]
  exact interrupted_stacking expandConditional_settles _ fuel depth

end Expander

end TexEngine
