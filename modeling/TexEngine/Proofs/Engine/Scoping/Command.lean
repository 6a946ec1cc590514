/-
  TexEngine.Proofs.Engine.Scoping.Command

  Commands with their prefixes.  Executing a token reads modifiers, one after the other,
  until a command begins that is no modifier.  On the way to it, expansion may relax control
  sequences, and the modifiers are collected; so the command finds \globaldefs as it was,
  and \global applies if it is among the modifiers.
-/
import TexEngine.Proofs.Engine.Scoping.Reading

namespace TexEngine

open Eng Discipline

/-! ## Modifiers -/

/-- \global applies once it has been added. -/
theorem Modifiers.isGlobal_foldl_add (f : Modifiers) (fs : List Modifier) :
    (fs.foldl Modifiers.add f).isGlobal = true ↔ f.isGlobal = true ∨ .isGlobal ∈ fs := by
  induction fs generalizing f with
  | nil => simp
  | cons g fs ih =>
    rw [List.foldl_cons, ih, List.mem_cons, ← or_assoc]
    cases g <;> simp [add]

/-! ## Single commands -/

namespace Machine

/-- The state after \tracingcommands was obeyed for a command. -/
def announced (m : Machine) (t : Token) : Machine :=
  if m.env.traces "tracingcommands" then
    m.note (traceEvents m.traceLevel .info .engine
      ("\x7b" ++ t.format m.env.escapeChar ++ "\x7d"))
  else m

variable (m : Machine) (t : Token)

@[simp] theorem env_announced : (m.announced t).env = m.env := by
  unfold announced
  split <;> rfl

@[simp] theorem modifiers_announced : (m.announced t).modifiers = m.modifiers := by
  unfold announced
  split <;> rfl

end Machine

namespace Expander

variable {x : Expander} {t t' c : Token} {μ : Meaning} {f : Modifier} {fs : List Modifier}
  {m m₁ m' : Machine} {run : Eng Unit}

/-- What a command with the given meaning does.  The result is the token that it modifies, if
    there is one. -/
def act (x : Expander) (μ : Meaning) (t : Token) : Eng (Option Token) := do
  match μ with
  | .modifier f =>
    modify fun s => { s with modifiers := s.modifiers.add f }
    return some (← expect (← x.nextNonRelax?) .cantUsePrefix [])
  | .command c => x.executeCommand c t
  | .assigner a => assigning (x.performAssigner a t)
  | .quantity _ => x.assignQuantity μ
  | .register _ _ => x.assignQuantity μ
  | .charDef c => addChar c
  | .font f => assigning (assign (.font f))
  | .charToken c => executeChar c
  | _ => failAt .cantUse t []
  return none

/-- Where a command succeeds, it was accepted, and has done what its meaning says. -/
theorem act_of_dispatch {r : Option Token} (hcommand : t.isCommand = true)
    (hmeaning : meaningIn m.env t = some μ) (h : x.dispatch t m = .ok r m') :
    x.act μ t (m.announced t) = .ok r m' := by
  unfold dispatch at h
  rw [bind_of_ok (get_apply m), hcommand] at h
  extract_lets at h
  rw [if_neg (by simp), bind_of_ok (meaning?_apply t m), hmeaning] at h
  dsimp -zeta only at h
  extract_lets act' accept at h
  have haccept : accept () m = x.act μ t (m.announced t) := by
    have hact : act' () = x.act μ t := rfl
    have hshown : showToken t m = .ok (t.format m.env.escapeChar) m := rfl
    dsimp only [accept]
    rw [bind_of_ok (env_apply m), Machine.announced, ← hact]
    split
    · rw [bind_of_ok hshown, bind_of_ok (trace_apply ..)]
    · rfl
  split at h
  · obtain ⟨_, _, hfail, -⟩ := exists_of_bind_eq_ok h
    contradiction
  · rwa [haccept] at h

/-- A modifier is added, and the token behind it is looked for by expansion. -/
theorem act_modifier (hx : x.Disciplined) {r : Option Token}
    (h : x.act (.modifier f) t m = .ok r m') :
    ∃ names, m.env.Relaxes names m'.env ∧ m'.modifiers = m.modifiers.add f := by
  let added : Machine := { m with modifiers := m.modifiers.add f }
  let next : Eng (Option Token) := do
    return some (← expect (← x.nextNonRelax?) .cantUsePrefix [])
  have hread : Spec expanding False next fun _ => True :=
    (nextNonRelax?_spec hx).seq fun t? =>
      (expect_spec t? _ _ (T := fun _ => True) fun h => h.elim).seq fun _ => .done
  have hnext : next added = .ok r m' := h
  have hexpands : added.Expands m' := by
    have hafter := hread.rel_after added
    rwa [after_of_ok hnext] at hafter
  obtain ⟨names, henv⟩ := hexpands.env
  exact ⟨names, henv, congrArg Machine.modifiers hexpands.apart⟩

/-- An assignment modifies nothing. -/
theorem act_of_assignment (h : x.assignment? μ t = some run) :
    x.act μ t = (do run; return none) := by
  cases μ with
  | assigner a =>
    obtain rfl := Option.some.inj h
    rfl
  | quantity q =>
    obtain rfl := Option.some.inj h
    rfl
  | register bank i =>
    obtain rfl := Option.some.inj h
    rfl
  | font f =>
    obtain rfl := Option.some.inj h
    rfl
  | _ => contradiction

/-! ## Commands with prefixes -/

/-- Executing the token `t` in the state `m` reads the modifiers `fs`, and then the command
    `c` with the meaning `μ` begins in the state `m'`. -/
inductive Begins (x : Expander) :
    List Modifier → Token → Machine → Token → Meaning → Machine → Prop where
  | command {t : Token} {m : Machine} {μ : Meaning} (hcommand : t.isCommand = true)
      (hmeaning : meaningIn m.env t = some μ) : Begins x [] t m t μ (m.announced t)
  | modifier {f : Modifier} {fs : List Modifier} {t t' c : Token} {m m₁ m' : Machine} {μ : Meaning}
      (hcommand : t.isCommand = true) (hmeaning : meaningIn m.env t = some (.modifier f))
      (hread : x.dispatch t m = .ok (some t') m₁) (h : Begins x fs t' m₁ c μ m') :
      Begins x (f :: fs) t m c μ m'

/-- Between the first modifier and the command, control sequences are relaxed and the
    modifiers are added. -/
theorem Begins.relaxes (hx : x.Disciplined) (h : x.Begins fs t m c μ m') :
    ∃ names, m.env.Relaxes names m'.env ∧ m'.modifiers = fs.foldl Modifiers.add m.modifiers := by
  induction h with
  | command hcommand hmeaning =>
    rw [Machine.env_announced, Machine.modifiers_announced]
    exact ⟨[], .refl, rfl⟩
  | modifier hcommand hmeaning hread h ih =>
    obtain ⟨names, henv, hmodifiers⟩ := ih
    have hact := act_of_dispatch hcommand hmeaning hread
    obtain ⟨names', henv', hadded⟩ := act_modifier hx hact
    rw [Machine.env_announced] at henv'
    rw [Machine.modifiers_announced] at hadded
    refine ⟨names' ++ names, henv'.trans henv, ?_⟩
    rw [hmodifiers, hadded, List.foldl_cons]

/-- The command finds \globaldefs as it was in front of the prefixes. -/
theorem Begins.assignsGlobally_iff (hx : x.Disciplined) (h : x.Begins fs t m c μ m')
    (hmodifiers : m.modifiers = {}) :
    m'.assignsGlobally μ = true ↔ 0 < m.env.count "globaldefs" ∨
      m.env.count "globaldefs" = 0 ∧ (.isGlobal ∈ fs ∨ μ.isAlwaysGlobal = true) := by
  obtain ⟨names, henv, hadded⟩ := h.relaxes hx
  have hcount : m'.env.count "globaldefs" = m.env.count "globaldefs" := by
    rw [Env.count, henv.undisturbed.counts, Env.count]
  have hprefix : m'.modifiers.isGlobal = true ↔ .isGlobal ∈ fs := by
    rw [hadded, hmodifiers, Modifiers.isGlobal_foldl_add]
    exact or_iff_right Bool.false_ne_true
  rw [Machine.assignsGlobally_iff, hcount, hprefix]

theorem eq_ok_of_blame {α : Type} {act : Eng α} {a : α} (h : blame t act m = .ok a m') :
    act m = .ok a m' := by
  unfold blame at h
  split at h
  · rename_i hact
    rw [hact, h]
  · contradiction
  · contradiction

/-- Each modifier is a round of the loop, and the assignment is the last round. -/
theorem Begins.run_of_iterate (h : x.Begins fs t m c μ m') (hrun : x.assignment? μ c = some run)
    {n : Nat} (hloop : iterate x.round n t m = .ok () m₁) : run m' = .ok () m₁ := by
  induction h generalizing n with
  | command hcommand hmeaning =>
    cases n with
    | zero => contradiction
    | succ n =>
      -- An assignment gives no further token, so that the loop ends with it.
      obtain ⟨r, m₃, hround, hrest⟩ := exists_of_bind_eq_ok hloop
      obtain ⟨next?, m₄, hblame, hnext⟩ := exists_of_bind_eq_ok hround
      have hact := act_of_dispatch hcommand hmeaning (eq_ok_of_blame hblame)
      rw [act_of_assignment hrun] at hact
      obtain ⟨⟨⟩, m₅, hrun, hnone⟩ := exists_of_bind_eq_ok hact
      obtain ⟨rfl, rfl⟩ := EStateM.Result.ok.inj hnone
      obtain ⟨rfl, rfl⟩ := EStateM.Result.ok.inj hnext
      obtain ⟨-, rfl⟩ := EStateM.Result.ok.inj hrest
      exact hrun
  | modifier hcommand hmeaning hread h ih =>
    cases n with
    | zero => contradiction
    | succ n =>
      -- The round reads the same token as the prefix did, and the loop goes on with it.
      obtain ⟨r, m₃, hround, hrest⟩ := exists_of_bind_eq_ok hloop
      obtain ⟨next?, m₄, hblame, hnext⟩ := exists_of_bind_eq_ok hround
      obtain ⟨rfl, rfl⟩ := EStateM.Result.ok.inj (hread.symm.trans (eq_ok_of_blame hblame))
      obtain ⟨rfl, rfl⟩ := EStateM.Result.ok.inj hnext
      exact ih hrun hrest

/-- Executing the token executes the command that begins, and then no modifier is left. -/
theorem Begins.execute (h : x.Begins fs t m c μ m') (hrun : x.assignment? μ c = some run)
    (hexecute : x.execute t m = .ok () m₁) :
    ∃ m₂, run m' = .ok () m₂ ∧ m₁ = { m₂ with modifiers := {} } := by
  unfold Expander.execute at hexecute
  split at hexecute
  · rename_i m₂ hloop
    obtain ⟨-, rfl⟩ := EStateM.Result.ok.inj hexecute
    exact ⟨m₂, h.run_of_iterate hrun hloop, rfl⟩
  · contradiction

end Expander

end TexEngine
