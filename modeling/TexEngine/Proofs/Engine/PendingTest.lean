/-
  TexEngine.Proofs.Engine.PendingTest

  A conditional stays open while its test is evaluated.  What is closed is always the
  innermost conditional, and nothing but the mark of a pending test protects the ones
  around it: an \else, \or or \fi that finds the innermost conditional pending gives
  the token back behind a \relax.

  The argument is about the stack alone.  An expansion *guards* the stack if all pending
  conditionals, and everything below them, are the same afterwards.  Closing a
  conditional that is not pending guards the stack, and so does a whole conditional
  whose test guards it: what it closes lies above the stack it began with.  By induction
  on the levels of expansions that are allowed, every expansion guards the stack.

  This holds of all moments between two expansions, not only of the last one.  The
  expanders below stop whenever a condition on the state tells them to; where they stop
  is the state of some moment of the run.  An expansion opens its conditional before
  anything else and closes one at its very end, so that no stack is missed: a conditional
  that is found unchanged at all these moments has never been taken off.
-/
import TexEngine.Proofs.Engine.Skipping

namespace TexEngine

open Eng Discipline

/-! ## Guarded stacks -/

/-- The first `n` conditionals are the same. -/
def SameBelow (n : Nat) (cs cs' : Array Conditional) : Prop :=
  ∀ j < n, cs'[j]? = cs[j]?

/-- Every pending conditional is the same afterwards, and so is everything below it. -/
def Guards (cs cs' : Array Conditional) : Prop :=
  ∀ i c, cs[i]? = some c → c.pending = true → SameBelow (i + 1) cs cs'

namespace SameBelow

variable {n k : Nat} {cs cs' cs'' : Array Conditional}

theorem trans (h : SameBelow n cs cs') (h' : SameBelow n cs' cs'') : SameBelow n cs cs'' :=
  fun j hj => (h' j hj).trans (h j hj)

theorem mono (h : SameBelow n cs cs') (hk : k ≤ n) : SameBelow k cs cs' :=
  fun j hj => h j (Nat.lt_of_lt_of_le hj hk)

theorem push (cs : Array Conditional) (c : Conditional) : SameBelow cs.size cs (cs.push c) :=
  by
  intro j hj
  rw [Array.getElem?_push, if_neg (by omega)]

theorem pop (h : n < cs.size) : SameBelow n cs cs.pop := by
  intro j hj
  rw [Array.getElem?_pop, if_pos (by omega)]

theorem modify (n : Nat) (cs : Array Conditional) (f : Conditional → Conditional) :
    SameBelow n cs (cs.modify n f) := by
  intro j hj
  rw [Array.getElem?_modify, if_neg (by omega)]

/-- Where there is a conditional in front, there is one behind. -/
theorem lt_size (h : SameBelow n cs cs') (hk : k < n) (hsize : k < cs.size) : k < cs'.size := by
  have hsome : cs'[k]? = some cs[k] := (h k hk).trans (Array.getElem?_eq_getElem hsize)
  exact (Array.getElem?_eq_some_iff.mp hsome).1

/-- A stack of which everything stays is guarded. -/
theorem guards (h : SameBelow cs.size cs cs') : Guards cs cs' := by
  intro i c hc _
  obtain ⟨hi, -⟩ := Array.getElem?_eq_some_iff.mp hc
  exact h.mono hi

end SameBelow

namespace Guards

variable {cs cs' cs'' : Array Conditional}

theorem of_eq (h : cs' = cs) : Guards cs cs' :=
  fun _ _ _ _ _ _ => by rw [h]

theorem trans (h : Guards cs cs') (h' : Guards cs' cs'') : Guards cs cs'' := by
  intro i c hc hpending
  have hsame := h i c hc hpending
  -- The pending conditional is still there, so that the second step guards it, too.
  have hc' : cs'[i]? = some c := (hsame i (Nat.lt_succ_self i)).trans hc
  exact hsame.trans (h' i c hc' hpending)

/-- The innermost conditional may be closed if it is not pending. -/
theorem pop {top : Conditional} (htop : cs.back? = some top) (hsettled : top.pending = false) :
    Guards cs cs.pop := by
  intro i c hc hpending
  obtain ⟨hi, -⟩ := Array.getElem?_eq_some_iff.mp hc
  have hne : i ≠ cs.size - 1 := by
    rintro rfl
    rw [← Array.back?_eq_getElem?, htop] at hc
    injection hc with hc
    rw [hc, hpending] at hsettled
    contradiction
  exact SameBelow.pop (by omega)

/-- What guards a stack with a pending conditional on top leaves that conditional and all
    others there. -/
theorem sameBelow_push {c : Conditional} (h : Guards (cs.push c) cs') (hc : c.pending = true) :
    SameBelow (cs.size + 1) (cs.push c) cs' :=
  h cs.size c Array.getElem?_push_size hc

end Guards

/-! ## The discipline -/

/-- Expansion that relates the conditional stacks in front and behind in some way. -/
def Discipline.stacking (R : Array Conditional → Array Conditional → Prop) (refl : ∀ cs, R cs cs)
    (trans : ∀ {cs cs' cs''}, R cs cs' → R cs' cs'' → R cs cs'') : Discipline where
  rel := fun m m' => m.Expands m' ∧ R m.env.conditionals m'.env.conditionals
  refl := fun m => ⟨.refl m, refl _⟩
  trans := fun h h' => ⟨h.1.trans h'.1, trans h.2 h'.2⟩
  good := Machine.LevelsInRange
  good_of_rel := fun h hgood => Nat.lt_of_le_of_lt h.1.highest_le hgood
  inv := Machine.Legal

section Stacking

variable {R : Array Conditional → Array Conditional → Prop} {refl : ∀ cs, R cs cs}
  {trans : ∀ {cs cs' cs''}, R cs cs' → R cs' cs'' → R cs cs''}

instance : Expanding (stacking R refl trans) :=
  ⟨rfl, rfl, fun h => ⟨h.1.of_nested, h.2⟩,
    fun {m _} h _ hsame => ⟨h, hsame ▸ refl m.env.conditionals⟩⟩

theorem Expander.KeepsTo.disciplined {x : Expander} (hx : x.KeepsTo (stacking R refl trans)) :
    x.Disciplined :=
  fun hμ ht => (hx hμ ht).of_rel (fun _ _ hrel => hrel.1) rfl rfl

end Stacking

/-- Expansion that guards the conditional stack. -/
abbrev Discipline.guarding : Discipline :=
  stacking Guards (fun _ => .of_eq rfl) .trans

/-! ## Opening a conditional, and its test -/

namespace Expander

variable {α : Type} {x : Expander}

/-- The end of a test: the conditional with the given index is not pending any more. -/
def settle (i : Nat) (m : Machine) : Machine :=
  { m with
    env.conditionals := m.env.conditionals.modify i fun c => { c with pending := false } }

theorem whilePending_apply (i : Nat) (act : Eng α) (m : Machine) :
    whilePending i act m =
      match act m with
      | .ok a m' => .ok a (settle i m')
      | .error f m' => .error f (settle i m') := by
  show EStateM.bind (EStateM.tryCatch act _) _ m = _
  unfold EStateM.bind EStateM.tryCatch
  cases act m with
  | ok a m' => rfl
  | error f m' => rfl

/-! ## Conditionals guard the stack -/

theorem Settled.sameBelow {i : Nat} {cs cs' : Array Conditional} (h : Settled i cs cs')
    (hi : i < cs.size) : SameBelow i cs cs' := by
  rcases h with rfl | ⟨f, -, rfl⟩
  · exact .pop hi
  · exact .modify i cs f

theorem sameBelow_of_ends {i : Nat} {act : Eng Unit} (h : EndsIn act fun _ => Settled i)
    {m : Machine} (hi : i < m.env.conditionals.size) :
    SameBelow i m.env.conditionals (act.after m).env.conditionals ∧
      ∀ f m', act m = .error f m' → i < m'.env.conditionals.size := by
  have hm := h m
  cases hact : act m with
  | ok u m' =>
    rw [hact] at hm
    rw [after_of_ok hact]
    have hsettled : Settled i m.env.conditionals m'.env.conditionals := hm
    exact ⟨hsettled.sameBelow hi, fun _ _ hfail => nomatch hfail⟩
  | error f m' =>
    rw [hact] at hm
    have hsame : m'.env.conditionals = m.env.conditionals := hm
    rw [after_of_error hact, hsame]
    refine ⟨fun _ _ => rfl, fun f' m'' hfail => ?_⟩
    injection hfail with _ hm''
    rwa [← hm'', hsame]

/-- Behind a test that guards the stack, everything below the conditional is as before the
    conditional was opened, and the conditional is there. -/
theorem conditionals_of_tested {act : Eng α} {c : Conditional} (hc : c.pending = true)
    (hact : ∀ m, Guards m.env.conditionals (act.after m).env.conditionals) (m : Machine) :
    SameBelow m.env.conditionals.size m.env.conditionals
        (settle m.env.conditionals.size (act.after (m.within c))).env.conditionals ∧
      m.env.conditionals.size <
        (settle m.env.conditionals.size (act.after (m.within c))).env.conditionals.size := by
  have hkept : SameBelow (m.env.conditionals.size + 1) (m.env.conditionals.push c)
      (act.after (m.within c)).env.conditionals := (hact (m.within c)).sameBelow_push hc
  constructor
  · -- The end of the test changes the conditional itself, and nothing below it.
    have hbelow := hkept.mono (Nat.le_succ m.env.conditionals.size)
    exact ((SameBelow.push _ c).trans hbelow).trans (.modify _ _ _)
  · show _ < (Array.modify ..).size
    rw [Array.size_modify]
    apply hkept.lt_size (Nat.lt_succ_self _)
    rw [Array.size_push]
    exact Nat.lt_succ_self _

/-- A conditional is opened, its test is evaluated, and a branch is chosen: either the test
    fails, or the branch is chosen where the test ended. -/
theorem opened_cases {name : String} {isCase : Bool} {act : Eng α} {choose : Nat → α → Eng Unit}
    {run : Eng Unit}
    (hrun : run = do
      let i ← openConditional name isCase
      choose i (← whilePending i act)) (m : Machine) :
    let i := m.env.conditionals.size
    ∃ es, let m₁ := (m.note es).within (opening m.input.locator name isCase)
      (∃ f m₂, act m₁ = .error f m₂ ∧ run m = .error f (settle i m₂)) ∨
        ∃ a m₂, act m₁ = .ok a m₂ ∧ run m = choose i a (settle i m₂) := by
  intro i
  obtain ⟨es, hopen⟩ := openConditional_apply name isCase m
  refine ⟨es, ?_⟩
  intro m₁
  have hpending := whilePending_apply i act m₁
  cases htest : act m₁ with
  | error f m₂ =>
    rw [htest] at hpending
    exact .inl ⟨f, m₂, rfl, by rw [hrun, bind_of_ok hopen, bind_of_error hpending]⟩
  | ok a m₂ =>
    rw [htest] at hpending
    exact .inr ⟨a, m₂, rfl, by rw [hrun, bind_of_ok hopen, bind_of_ok hpending]⟩

/-- Nothing below a conditional changes if its test guards the stack; and where the
    conditional fails, it is still open. -/
theorem conditionals_of_opened {name : String} {isCase : Bool} {act : Eng α}
    {choose : Nat → α → Eng Unit} {run : Eng Unit}
    (hrun : run = do
      let i ← openConditional name isCase
      choose i (← whilePending i act))
    (hact : ∀ m, Guards m.env.conditionals (act.after m).env.conditionals)
    (hchoose : ∀ i a, EndsIn (choose i a) fun _ => Settled i) (m : Machine) :
    SameBelow m.env.conditionals.size m.env.conditionals (run.after m).env.conditionals ∧
      ∀ f m', run m = .error f m' → m.env.conditionals.size < m'.env.conditionals.size := by
  obtain ⟨es, hcases⟩ := opened_cases hrun m
  let c := opening m.input.locator name isCase
  obtain ⟨hsettled, hlt⟩ := conditionals_of_tested (show c.pending = true from rfl) hact (m.note es)
  rcases hcases with ⟨f, m₂, htest, hfail⟩ | ⟨a, m₂, htest, hrest⟩
  · rw [after_of_error htest] at hsettled hlt
    rw [after_of_error hfail]
    refine ⟨hsettled, fun f' m' h => ?_⟩
    rw [hfail] at h
    injection h with _ hm
    rwa [← hm]
  · rw [after_of_ok htest] at hsettled hlt
    obtain ⟨hsame, hfail⟩ := sameBelow_of_ends (hchoose m.env.conditionals.size a) hlt
    have hafter : run.after m = (choose m.env.conditionals.size a).after
        (settle m.env.conditionals.size m₂) := by
      rw [after, after, hrest]
    rw [hafter, hrest]
    exact ⟨hsettled.trans hsame, hfail⟩

theorem conditionals_of_expandIf {t : Test}
    (ht : ∀ m, Guards m.env.conditionals ((x.test t).after m).env.conditionals) (m : Machine) :
    SameBelow m.env.conditionals.size m.env.conditionals
        ((x.expandIf t).after m).env.conditionals ∧
      ∀ f m', x.expandIf t m = .error f m' →
        m.env.conditionals.size < m'.env.conditionals.size := by
  have hrun : x.expandIf t = (do
      let i ← openConditional t.name false
      if ← whilePending i (x.test t) then enterBranch i else x.skipFirst i) := rfl
  exact conditionals_of_opened hrun ht (ends_ifBranch x) m

theorem conditionals_of_expandCase
    (hinteger : ∀ m, Guards m.env.conditionals (x.scanInteger.after m).env.conditionals)
    (m : Machine) :
    SameBelow m.env.conditionals.size m.env.conditionals
        (x.expandCase.after m).env.conditionals ∧
      ∀ f m', x.expandCase m = .error f m' →
        m.env.conditionals.size < m'.env.conditionals.size := by
  have hrun : x.expandCase = (do
      let i ← openConditional CondPrimitive.ifCase.name true
      let n ← whilePending i x.scanInteger
      if n < 0 then x.skipFirst i else x.skipCases i n) := rfl
  exact conditionals_of_opened hrun hinteger (ends_caseBranch x) m

/-- What \else, \or and \fi do: something is closed only if there is a conditional, and the
    innermost one is not pending. -/
theorem endBranch_cases (x : Expander) (p : CondPrimitive) (t : Token) (m : Machine) :
    ∃ act : Eng Unit, x.endBranch p t m = act m ∧
      ((∃ kind, act = failAt kind t []) ∨
        ∃ c, m.env.conditionals.back? = some c ∧
          (act = push [.frozenRelax, t] ∨
            c.pending = false ∧ (act = popConditional ∨ act = x.skipToFi))) := by
  refine ⟨_, bind_of_ok (env_apply m) _, ?_⟩
  split
  · exact .inl ⟨_, rfl⟩
  · rename_i hextra
    cases htop : m.env.conditionals.back? with
    | none =>
      rw [htop] at hextra
      cases p <;> contradiction
    | some c =>
      refine .inr ⟨c, rfl, ?_⟩
      rw [Option.any_some]
      split
      · exact .inl rfl
      · rename_i hpending
        refine .inr ⟨Bool.eq_false_iff.mpr hpending, ?_⟩
        split
        · exact .inl rfl
        · exact .inr rfl

/-- What \else, \or and \fi do to the stack: nothing, or a conditional is closed that is not
    pending. -/
theorem ends_endBranch (x : Expander) (p : CondPrimitive) (t : Token)
    {R : Array Conditional → Array Conditional → Prop} (hrefl : ∀ cs, R cs cs)
    (hpop : ∀ {cs : Array Conditional} {c}, cs.back? = some c → c.pending = false → R cs cs.pop) :
    EndsIn (x.endBranch p t) fun _ => R := by
  intro m
  obtain ⟨act, hrun, hact⟩ := endBranch_cases x p t m
  rw [hrun]
  rcases hact with ⟨kind, rfl⟩ | ⟨c, htop, rfl | ⟨hsettled, rfl | rfl⟩⟩
  · rfl
  -- The token is given back: this is all that happens while a test is pending.
  · exact hrefl _
  · exact hpop htop hsettled
  · have hskip := ends_skipToFi x m
    cases hact : x.skipToFi m with
    | ok u m' =>
      rw [hact] at hskip
      have hclosed : m'.env.conditionals = m.env.conditionals.pop := hskip
      dsimp only
      rw [hclosed]
      exact hpop htop hsettled
    | error f m' =>
      rw [hact] at hskip
      exact hskip

theorem ends_endBranch_guards (x : Expander) (p : CondPrimitive) (t : Token) :
    EndsIn (x.endBranch p t) fun _ => Guards :=
  ends_endBranch x p t (fun _ => .of_eq rfl) .pop

theorem expandConditional_guards (hx : x.KeepsTo guarding) (p : CondPrimitive) (t : Token)
    (m : Machine) :
    Guards m.env.conditionals ((x.expandConditional p t).after m).env.conditionals := by
  have htest : ∀ c m, Guards m.env.conditionals ((x.test c).after m).env.conditionals :=
    fun c m => ((test_spec (P := True) hx c).rel_after m).2
  have hinteger : ∀ m, Guards m.env.conditionals (x.scanInteger.after m).env.conditionals :=
    fun m => ((scanInteger_spec (P := True) hx).rel_after m).2
  cases p with
  | test c => exact (conditionals_of_expandIf (htest c) m).1.guards
  | ifCase => exact (conditionals_of_expandCase hinteger m).1.guards
  | _ => exact (ends_endBranch_guards x _ t).after (fun _ => .of_eq rfl) m

/-! ## Runs that are stopped -/

/-- Fails where it is told to. -/
def stopIf (stop : Machine → Option Fault) : Eng Unit := do
  match stop (← get) with
  | some f => throw f
  | none => pure ()

/-- An operation that may be stopped in front of it and behind it. -/
def stopping (stop : Machine → Option Fault) (act : Eng Unit) : Eng Unit := do
  stopIf stop
  act
  stopIf stop

/-- The expanders of all depths, but each expansion may be stopped in front of it and
    behind it.  It is counted then. -/
def interrupted (stop : Machine → Option Fault) (fuel : Nat) : Nat → Expander
  | 0 => { fuel, expand := fun _ t => nested (stopping stop (tooDeep t)) }
  | depth + 1 =>
    { fuel, expand := fun μ t => nested (stopping stop (step (interrupted stop fuel depth) μ t)) }

theorem stopping_never (act : Eng Unit) : stopping (fun _ => none) act = act := by
  funext m
  unfold stopping
  rw [bind_of_ok (show stopIf (fun _ => none) m = .ok () m from rfl)]
  cases hact : act m with
  | ok u m' => exact bind_of_ok hact _
  | error f m' => exact bind_of_error hact _

/-- Expanders that are never stopped are the ordinary ones. -/
theorem interrupted_never (fuel depth : Nat) :
    interrupted (fun _ => none) fuel depth = ofDepth fuel depth := by
  induction depth with
  | zero => simp only [interrupted, ofDepth, stopping_never]
  | succ depth ih => simp only [interrupted, ofDepth, stopping_never, ih]

theorem stopping_spec {D : Discipline} {P : Prop} (stop : Machine → Option Fault) {act : Eng Unit}
    (hact : Spec D P act fun _ => True) : Spec D P (stopping stop act) fun _ => True := by
  have hstop : Spec D P (stopIf stop) fun _ => True := by
    refine Spec.get.seq fun m => ?_
    split
    · exact .throw _
    · exact .done
  exact hstop.seq fun _ => hact.seq fun _ => hstop

/-- Every expansion relates the stacks in front and behind, wherever it is stopped, if
    conditionals do. -/
theorem interrupted_stacking {R : Array Conditional → Array Conditional → Prop}
    {refl : ∀ cs, R cs cs} {trans : ∀ {cs cs' cs''}, R cs cs' → R cs' cs'' → R cs cs''}
    (h : ∀ {x : Expander}, x.KeepsTo (stacking R refl trans) → ∀ p t (m : Machine),
      R m.env.conditionals ((x.expandConditional p t).after m).env.conditionals)
    (stop : Machine → Option Fault) (fuel depth : Nat) :
    (interrupted stop fuel depth).KeepsTo (stacking R refl trans) := by
  induction depth with
  | zero => exact fun _ _ => nested_spec (stopping_spec stop (.blame _ (fail_spec ..)))
  | succ depth ih =>
    -- Conditionals keep to the discipline of expansion anyway; what is new is the stack.
    have hconditional : ∀ {P : Prop} (p : CondPrimitive) {t : Token}, (P → t.Legal) →
        Spec (stacking R refl trans) P ((interrupted stop fuel depth).expandConditional p t)
          fun _ => True := by
      intro P p t ht
      have hspec := expandConditional_spec (P := P) (KeepsTo.disciplined ih) p ht
      exact hspec.of_after fun m => ⟨hspec.rel_after m, h ih p t m⟩
    intro P μ t hμ ht
    exact nested_spec (stopping_spec stop (step_spec ih hconditional hμ ht))

/-- Every expansion guards the conditional stack, wherever it is stopped. -/
theorem interrupted_guarding (stop : Machine → Option Fault) (fuel depth : Nat) :
    (interrupted stop fuel depth).KeepsTo guarding :=
  interrupted_stacking expandConditional_guards stop fuel depth

end Expander

/-! ## Tests -/

/-- The conditional with the given index is pending, and it and all conditionals around it
    are those of `m`. -/
structure Machine.HoldsOpen (m : Machine) (i : Nat) (m' : Machine) : Prop where
  lt_size : i < m'.env.conditionals.size
  same : ∀ j ≤ i, m'.env.conditionals[j]? = m.env.conditionals[j]?
  pending : ∃ c, m'.env.conditionals[i]? = some c ∧ c.pending = true

theorem Machine.HoldsOpen.of_guards {m m' : Machine} {c : Conditional}
    (hc : c.pending = true) (h : Guards (m.within c).env.conditionals m'.env.conditionals) :
    (m.within c).HoldsOpen m.env.conditionals.size m' := by
  have hsame := h.sameBelow_push hc
  have htop : m'.env.conditionals[m.env.conditionals.size]? = some c :=
    (hsame _ (Nat.lt_succ_self _)).trans Array.getElem?_push_size
  obtain ⟨hlt, -⟩ := Array.getElem?_eq_some_iff.mp htop
  exact ⟨hlt, fun j hj => hsame j (Nat.lt_succ_of_le hj), c, htop, hc⟩

namespace Expander

/-- While a test is evaluated, its conditional stays open and pending.  The expanders may be
    stopped in front of every expansion in the test and behind it, so that this holds at all
    these moments; if they never are, they are the ordinary ones.  Afterwards the conditional
    is looked up by its index only while it is there: where a conditional fails, also
    behind its test, it is still open, and without any open conditional, no branch is
    skipped. -/
theorem conditional_open_while_tested (stop : Machine → Option Fault) (fuel depth : Nat)
    (m : Machine) :
    let x := interrupted stop fuel depth
    let i := m.env.conditionals.size
    interrupted (fun _ => none) fuel depth = ofDepth fuel depth ∧
      (∀ name isCase, ∃ m₁, openConditional name isCase m = .ok i m₁ ∧
        (∀ j < i, m₁.env.conditionals[j]? = m.env.conditionals[j]?) ∧
        m₁.HoldsOpen i m₁ ∧
        (∀ t, m₁.HoldsOpen i ((x.test t).after m₁)) ∧
        m₁.HoldsOpen i (x.scanInteger.after m₁)) ∧
      (∀ t f m', x.expandIf t m = .error f m' → i < m'.env.conditionals.size) ∧
      (∀ f m', x.expandCase m = .error f m' → i < m'.env.conditionals.size) ∧
      (∀ p t, m.env.conditionals = #[] →
        ∃ kind, x.endBranch p t m = (failAt kind t [] : Eng Unit) m) ∧
      ∀ p t f m', x.endBranch p t m = .error f m' → m'.env.conditionals = m.env.conditionals := by
  intro x i
  -- Expanding keeps what the conditionals below the top are, wherever it is stopped; everything
  -- else follows from this.
  have hx : x.KeepsTo guarding := interrupted_guarding stop fuel depth
  have htest : ∀ t m, Guards m.env.conditionals ((x.test t).after m).env.conditionals :=
    fun t m => ((test_spec (P := True) hx t).rel_after m).2
  have hinteger : ∀ m, Guards m.env.conditionals (x.scanInteger.after m).env.conditionals :=
    fun m => ((scanInteger_spec (P := True) hx).rel_after m).2
  refine ⟨interrupted_never fuel depth, fun name isCase => ?_, ?_, ?_, ?_, ?_⟩
  · obtain ⟨es, hopen⟩ := openConditional_apply name isCase m
    refine ⟨_, hopen, SameBelow.push _ _, .of_guards rfl (.of_eq rfl), fun t => ?_, ?_⟩
    · exact .of_guards rfl (htest t _)
    · exact .of_guards rfl (hinteger _)
  · exact fun t => (conditionals_of_expandIf (htest t) m).2
  · exact (conditionals_of_expandCase hinteger m).2
  · intro p t hempty
    obtain ⟨act, hrun, ⟨kind, rfl⟩ | ⟨c, htop, -⟩⟩ := endBranch_cases x p t m
    · exact ⟨_, hrun⟩
    · rw [hempty] at htop
      contradiction
  · intro p t f m' hrun
    have hend := ends_endBranch_guards x p t m
    rwa [hrun] at hend

/-- A test that leaves a conditional open, in front of the end of the input: 1>\iftrue 2 is
    false, and there is no branch to go on with. -/
theorem conditional_open_while_tested_runaway :
    ∃ f m', (ofDepth 20 3).expandIf .number (conditionalsOnly
        [.other 49, .other 62, .cs "iftrue", .other 50]) = .error f m' ∧
      0 < m'.env.conditionals.size := by
  let m := conditionalsOnly [.other 49, .other 62, .cs "iftrue", .other 50]
  have hopen := conditional_open_while_tested (fun _ => none) 20 3 m
  rw [hopen.1] at hopen
  cases hrun : (ofDepth 20 3).expandIf .number m with
  | error f m' => exact ⟨f, m', rfl, hopen.2.2.1 .number f m' hrun⟩
  | ok u m' =>
    have hfails : ((ofDepth 20 3).expandIf .number).value? m = none := by decide +kernel
    simp only [value?, hrun, reduceCtorEq] at hfails

end Expander

end TexEngine
