/-
  TexEngine.Proofs.Engine.Skipping

  What skipping does to the conditional stack.  The branches that are not wanted are
  skipped by reading alone; then either the innermost conditional is closed, or the
  conditional whose test it was enters a branch.  Nothing compares the two: they are
  the same conditional if the test has left no other one open.

  All of this ends with a change of the stack, and does nothing to it before (`EndsIn`);
  if it fails, the stack is as it was.
-/
import TexEngine.Proofs.Engine.Branch
import TexEngine.Proofs.Engine.Legal.Expand

namespace TexEngine

open Eng

variable {x : Expander} {m m' : Machine}

/-- Reading: the environment stays as it is. -/
def Discipline.reading : Discipline where
  rel := fun m m' => m'.env = m.env
  refl := fun _ => rfl
  trans := fun h h' => h'.trans h
  good := fun _ => True
  good_of_rel := fun _ _ => True.intro
  inv := fun _ => True

open Discipline in
theorem Eng.rawToken_reading {P : Prop} : Spec reading P rawToken fun _ => True := by
  refine .of_rel_after (fun _ => True.intro) fun m => ?_
  rw [after_rawToken]
  rfl

/-! ## What ends with a change of the stack -/

namespace Eng

variable {α β σ : Type}

/-- The operation does to the conditional stack what `E` says of its result; if it
    fails, the stack is as before. -/
def EndsIn (act : Eng α) (E : α → Array Conditional → Array Conditional → Prop) : Prop :=
  ∀ m, match act m with
    | .ok a m' => E a m.env.conditionals m'.env.conditionals
    | .error _ m' => m'.env.conditionals = m.env.conditionals

namespace EndsIn

variable {act : Eng α} {f : α → Eng β} {E : β → Array Conditional → Array Conditional → Prop}

/-- What is read in front of the change makes no difference. -/
theorem read (hact : ∀ m, (act.after m).env = m.env) (hf : ∀ a, EndsIn (f a) E) :
    EndsIn (act >>= f) E := by
  intro m
  have henv := hact m
  unfold after at henv
  cases hread : act m with
  | ok a m₁ =>
    rw [hread] at henv
    rw [bind_of_ok hread, ← show m₁.env = m.env from henv]
    exact hf a m₁
  | error e m₁ =>
    rw [hread] at henv
    rw [bind_of_error hread]
    exact congrArg Env.conditionals henv

/-- A loop whose rounds leave the stack alone until the last one. -/
theorem iterate {step : σ → Eng (Step σ β)}
    (hstep : ∀ s, EndsIn (step s) fun
      | .again _ => fun cs cs' => cs' = cs
      | .done b => E b) (n : Nat) (s : σ) : EndsIn (Eng.iterate step n s) E := by
  induction n generalizing s with
  | zero => exact fun _ => rfl
  | succ n ih =>
    intro m
    have hm := hstep s m
    unfold Eng.iterate
    cases hround : step s m with
    | error e m₁ =>
      rw [hround] at hm
      rw [bind_of_error hround]
      exact hm
    | ok r m₁ =>
      rw [hround] at hm
      rw [bind_of_ok hround]
      cases r with
      | again s' =>
        have hsame : m₁.env.conditionals = m.env.conditionals := hm
        rw [← hsame]
        exact ih s' m₁
      | done b => exact hm

theorem imp {E' : α → Array Conditional → Array Conditional → Prop} {E : α → _} (h : EndsIn act E)
    (himp : ∀ a cs cs', E a cs cs' → E' a cs cs') : EndsIn act E' := by
  intro m
  have hm := h m
  cases hact : act m with
  | ok a m' =>
    rw [hact] at hm
    exact himp a _ _ hm
  | error f m' =>
    rw [hact] at hm
    exact hm

/-- What ends with a change of the stack, if it succeeds, relates the stacks as this change
    does. -/
theorem after {R : Array Conditional → Array Conditional → Prop} (hrefl : ∀ cs, R cs cs)
    (h : EndsIn act fun _ => R) (m : Machine) :
    R m.env.conditionals (act.after m).env.conditionals := by
  have hm := h m
  cases hact : act m with
  | ok a m' =>
    rw [hact] at hm
    rwa [after_of_ok hact]
  | error f m' =>
    rw [hact] at hm
    have hsame : m'.env.conditionals = m.env.conditionals := hm
    rw [after_of_error hact, hsame]
    exact hrefl _

end EndsIn

end Eng

/-! ## Skipping -/

namespace Expander

/-- Skipping only reads, whether it succeeds or fails. -/
theorem env_after_skipBranch (x : Expander) (i : Nat) (cases : Bool) (m : Machine) :
    ((x.skipBranch i cases).after m).env = m.env :=
  (skipBranch_spec (P := True) rawToken_reading i cases).rel_after m

/-- The conditional stack behind skipped branches: the innermost conditional is closed,
    or the one with index `i` enters a branch. -/
def Settled (i : Nat) (cs cs' : Array Conditional) : Prop :=
  cs' = cs.pop ∨ ∃ f : Conditional → Conditional,
    (∀ c, (f c).value = true ∧ (f c).pending = c.pending) ∧ cs' = cs.modify i f

theorem Settled.enterBranch (i : Nat) (cs : Array Conditional) :
    Settled i cs (cs.modify i fun c => { c with value := true }) :=
  .inr ⟨fun c => { c with value := true }, fun _ => ⟨rfl, rfl⟩, rfl⟩

theorem Settled.enterElse (i : Nat) (cs : Array Conditional) :
    Settled i cs (cs.modify i fun c => { c with value := true, inElse := true }) :=
  .inr ⟨fun c => { c with value := true, inElse := true }, fun _ => ⟨rfl, rfl⟩, rfl⟩

theorem ends_skipFirst (x : Expander) (i : Nat) :
    EndsIn (x.skipFirst i) fun _ => Settled i := by
  apply EndsIn.read (env_after_skipBranch x i false)
  intro e
  cases e with
  | endIf => exact fun _ => .inl rfl
  | orElse => exact fun _ => .enterElse ..
  | orCase => exact fun _ => .enterElse ..

theorem ends_skipCases (x : Expander) (i : Nat) (n : Int64) :
    EndsIn (x.skipCases i n) fun _ => Settled i := by
  apply EndsIn.iterate
  intro n
  split
  · exact fun _ => Settled.enterBranch ..
  · apply EndsIn.read (env_after_skipBranch x i true)
    intro e
    cases e with
    | endIf => exact fun _ => .inl rfl
    | orElse => exact fun _ => Settled.enterElse ..
    | orCase => exact fun _ => rfl

/-- The branch that a test chooses. -/
theorem ends_ifBranch (x : Expander) (i : Nat) (b : Bool) :
    EndsIn (if b then enterBranch i else x.skipFirst i) fun _ => Settled i := by
  cases b with
  | true => exact fun _ => Settled.enterBranch ..
  | false => exact ends_skipFirst x i

/-- The branch that a number chooses. -/
theorem ends_caseBranch (x : Expander) (i : Nat) (n : Int64) :
    EndsIn (if n < 0 then x.skipFirst i else x.skipCases i n) fun _ => Settled i := by
  split
  · exact ends_skipFirst x i
  · exact ends_skipCases x i n

/-- The rest of the innermost conditional is skipped, and it is closed. -/
theorem ends_skipToFi (x : Expander) : EndsIn x.skipToFi fun _ cs cs' => cs' = cs.pop := by
  apply EndsIn.read (fun _ => rfl)
  intro env
  apply EndsIn.iterate
  intro _
  apply EndsIn.read (env_after_skipBranch x _ false)
  intro e
  cases e <;> exact fun _ => rfl

theorem settled_skipFirst {i : Nat} (h : x.skipFirst i m = .ok () m') :
    Settled i m.env.conditionals m'.env.conditionals := by
  have hm := ends_skipFirst x i m
  rwa [h] at hm

theorem settled_skipCases {i : Nat} {n : Int64} (h : x.skipCases i n m = .ok () m') :
    Settled i m.env.conditionals m'.env.conditionals := by
  have hm := ends_skipCases x i n m
  rwa [h] at hm

/-- If only the conditional with index `i` was added to the stack, it is closed, or it
    is the innermost one. -/
theorem Settled.size {i : Nat} {cs cs' : Array Conditional} (h : Settled i cs cs')
    (hsize : cs.size = i + 1) : cs'.size = i ∨ cs'.size = i + 1 := by
  rcases h with rfl | ⟨f, -, rfl⟩
  · left
    rw [Array.size_pop, hsize]
    rfl
  · right
    rw [Array.size_modify, hsize]

theorem openConditional_eq_size {name : String} {isCase : Bool} {i : Nat}
    (h : openConditional name isCase m = .ok i m') : i = m.env.conditionals.size := by
  obtain ⟨es, hopen⟩ := openConditional_apply name isCase m
  rw [hopen] at h
  injection h with hi
  exact hi.symm

/-- A conditional whose test has left no other conditional open is closed when its
    branches have been skipped, or it is the innermost one. -/
theorem size_conditionals_of_skipped (x : Expander) (m m₁ m' : Machine)
    (hopen : m₁.env.conditionals.size = m.env.conditionals.size + 1) :
    (∀ t, (do whilePending (← openConditional t.name false) (x.test t)) m = .ok false m₁ →
      x.expandIf t m = .ok () m' →
        m'.env.conditionals.size = m.env.conditionals.size ∨
          m'.env.conditionals.size = m.env.conditionals.size + 1) ∧
    (∀ n, (do whilePending (← openConditional CondPrimitive.ifCase.name true) x.scanInteger) m =
        .ok n m₁ →
      x.expandCase m = .ok () m' →
        m'.env.conditionals.size = m.env.conditionals.size ∨
          m'.env.conditionals.size = m.env.conditionals.size + 1) := by
  constructor
  · intro t htest hrun
    obtain ⟨i, m₀, hpush, hpending⟩ := exists_of_bind_eq_ok htest
    have hi := openConditional_eq_size hpush
    rw [expandIf, bind_of_ok hpush, bind_of_ok hpending] at hrun
    subst hi
    exact (settled_skipFirst hrun).size hopen
  · intro n htest hrun
    obtain ⟨i, m₀, hpush, hpending⟩ := exists_of_bind_eq_ok htest
    have hi := openConditional_eq_size hpush
    rw [expandCase, bind_of_ok hpush, bind_of_ok hpending] at hrun
    subst hi
    split at hrun
    · exact (settled_skipFirst hrun).size hopen
    · exact (settled_skipCases hrun).size hopen

/-- A machine that knows three control sequences, and has tokens to read. -/
def conditionalsOnly (ts : TokenList) : Machine :=
  { env := { codes := Std.TreeMap.ofList [("iftrue", Meaning.conditional (.test .always)),
               ("else", .conditional .orElse), ("or", .conditional .orCase),
               ("fi", .conditional .endIf)] },
    input := Source.push {} ts }

/-- The comparison 1>2 a\else b\fi is false, so that \else begins its branch; the number
    in 1 a\or b\else c\fi chooses the branch behind \or.  Both conditionals are open then. -/
theorem size_conditionals_of_skipped_operands :
    let m := conditionalsOnly [.other 49, .other 62, .other 50, .space, .letter 97, .cs "else",
      .letter 98, .cs "fi"]
    let n := conditionalsOnly [.other 49, .space, .letter 97, .cs "or", .letter 98, .cs "else",
      .letter 99, .cs "fi"]
    let m' := ((ofDepth 20 1).expandIf .number).after m
    let n' := (ofDepth 20 1).expandCase.after n
    (m'.env.conditionals.size = 0 ∨ m'.env.conditionals.size = 1) ∧
      (n'.env.conditionals.size = 0 ∨ n'.env.conditionals.size = 1) ∧
      m'.env.conditionals.map (·.inElse) = #[true] ∧ m'.input.pending = 2 ∧
      n'.env.conditionals.map (·.inElse) = #[false] ∧ n'.input.pending = 4 := by
  intro m n m' n'
  let x := ofDepth 20 1
  let test : Eng Bool :=
    openConditional Test.number.name false >>= fun i => whilePending i (x.test .number)
  let choice : Eng Int64 :=
    openConditional CondPrimitive.ifCase.name true >>= fun i => whilePending i x.scanInteger
  have htest : test m = .ok false (test.after m) := eq_ok_of_value? (by decide +kernel)
  have hchoice : choice n = .ok 1 (choice.after n) := eq_ok_of_value? (by decide +kernel)
  have hif : x.expandIf .number m = .ok () m' := eq_ok_of_value? (by decide +kernel)
  have hcase : x.expandCase n = .ok () n' := eq_ok_of_value? (by decide +kernel)
  have hm := (size_conditionals_of_skipped x m (test.after m) m' (by decide +kernel)).1
  have hn := (size_conditionals_of_skipped x n (choice.after n) n' (by decide +kernel)).2
  exact ⟨hm .number htest hif, hn 1 hchoice hcase, by decide +kernel, by decide +kernel,
    by decide +kernel, by decide +kernel⟩

/-- A test that leaves a conditional open: \ifnum reads 1>\iftrue 2, which is false, and
    takes the \else of the inner conditional for its own. -/
theorem size_conditionals_of_skipped_inner :
    (match (ofDepth 20 3).expandIf .number (conditionalsOnly
        [.other 49, .other 62, .cs "iftrue", .other 50, .space, .cs "else", .other 51, .cs "fi",
          .cs "else", .cs "fi"]) with
      | .ok () m' => m'.env.conditionals.size
      | .error _ _ => 0) = 2 := by
  decide +kernel

end Expander

end TexEngine
