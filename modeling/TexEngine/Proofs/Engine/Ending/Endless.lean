/-
  TexEngine.Proofs.Engine.Ending.Endless

  Reading that never ends.  While the innermost conditional is waiting for the end of its
  test, a \fi is given back behind a frozen \relax.  The reader that looks for the brace of
  \scantokens skips the \relax, and finds the \fi again, in a state that differs in nothing
  from the one before: no amount of fuel is enough.
-/
import TexEngine.Proofs.Engine.Ending.ReadAll

namespace TexEngine

open Eng

/-! ## Want of fuel -/

/-- The operation runs out of fuel. -/
def Starves {α : Type} (act : Eng α) (m : Machine) : Prop :=
  ∃ m', act m = .error .outOfFuel m'

namespace Starves

variable {α β : Type} {act : Eng α} {m m' : Machine}

theorem bind (h : Starves act m) (f : α → Eng β) : Starves (act >>= f) m := by
  obtain ⟨m', h⟩ := h
  exact ⟨m', bind_of_error h f⟩

/-- A sequence starves if it does so behind its first operation. -/
theorem behind {a : α} {f : α → Eng β} (hact : act m = .ok a m') (h : Starves (f a) m') :
    Starves (act >>= f) m := by
  obtain ⟨m'', h⟩ := h
  exact ⟨m'', (bind_of_ok hact f).trans h⟩

theorem blame (h : Starves act m) (t : Token) : Starves (Eng.blame t act) m := by
  obtain ⟨m', h⟩ := h
  exact ⟨m', by rw [Eng.blame, h]⟩

theorem whilePending (h : Starves act m) (i : Nat) : Starves (Expander.whilePending i act) m := by
  obtain ⟨m', h⟩ := h
  exact ⟨_, by rw [Expander.whilePending_apply, h]⟩

/-- A loop starves if its first round does, whatever fuel it has. -/
theorem iterate {σ : Type} {step : σ → Eng (Step σ α)} {s : σ} (h : Starves (step s) m)
    (n : Nat) : Starves (Eng.iterate step n s) m := by
  cases n with
  | zero => exact ⟨m, rfl⟩
  | succ n => exact h.bind _

/-- A loop starves if it does so behind a round. -/
theorem again {σ : Type} {step : σ → Eng (Step σ α)} {s u : σ} {n : Nat}
    (hround : step s m = .ok (.again u) m') (h : Starves (Eng.iterate step n u) m') :
    Starves (Eng.iterate step (n + 1) s) m := by
  rwa [Starves, iterate_of_again hround]

end Starves

namespace Expander

variable {x : Expander} {m m' : Machine}

/-! ## The endless loop -/

/-- A \fi has been read that ends no branch, but interrupts a test. -/
structure Interrupts (m : Machine) : Prop where
  meaning : m.env.code? "fi" = some (.conditional .endIf)
  pending : m.Interruptible
  marked : m.marked = none
  frozen : m.frozen = false
  room : m.input.pending + 2 ≤ m.limits.pushback

/-- The token is given back behind a frozen \relax. -/
theorem Interrupts.expand (h : Interrupts m) (fuel depth : Nat) :
    (ofDepth fuel (depth + 1)).expand (.conditional .endIf) (.cs "fi") m =
      .ok () (m.feed [.frozenRelax, .cs "fi"]) := by
  obtain ⟨c, htop, hpending⟩ := h.pending
  have hroom := h.room
  refine expand_ofDepth fuel depth ?_ ?_
  · show (ofDepth fuel depth).endBranch .endIf (.cs "fi") m = _
    unfold endBranch
    rw [bind_of_ok (env_apply m), htop]
    simp only [Option.any_some, hpending, if_true]
    exact push_apply m (by simp)
  · rw [Machine.pending_feed]
    exact hroom

theorem Interrupts.ready_eq (h : Interrupts m) : m.ready = m := by
  obtain ⟨-, -, hmarked, hfrozen, -⟩ := h
  cases m
  subst hmarked hfrozen
  rfl

/-- Behind the frozen \relax, the \fi is found again. -/
theorem Interrupts.again (h : Interrupts m) :
    token? (m.feed [.cs "fi"]) = .ok (some (.cs "fi")) (m.feed []) ∧ Interrupts (m.feed []) := by
  have hroom := h.room
  refine ⟨?_, h.meaning, h.pending, h.marked, h.frozen, ?_⟩
  · rw [token?_feed_cons m _ _ (by simp [h.marked]), h.ready_eq]
  · rw [Machine.pending_feed]
    exact hroom

/-- Reading gives the frozen \relax, if there is fuel for two rounds. -/
theorem Interrupts.next? (h : Interrupts m') (fuel depth : Nat)
    (hread : token? m = .ok (some (.cs "fi")) m') :
    Starves (ofDepth fuel (depth + 1)).next? m ∨
      (ofDepth fuel (depth + 1)).next? m = .ok (some .frozenRelax) (m'.feed [.cs "fi"]) := by
  have hmeaning : meaningIn m'.env (.cs "fi") = some (.conditional .endIf) := h.meaning
  have hfirst := nextStep_of_expandable (ofDepth fuel (depth + 1)) hread h.frozen rfl hmeaning rfl
    (h.expand fuel depth)
  have hrelax : token? (m'.feed [.frozenRelax, .cs "fi"]) =
      .ok (some .frozenRelax) (m'.feed [.cs "fi"]) := by
    rw [token?_feed_cons m' _ _ (by simp [h.marked]), h.ready_eq]
  have hsecond := nextStep_of_unexpandable (ofDepth fuel (depth + 1)) hrelax
    (fun _ μ hμ => by
      rw [meaningIn, if_pos rfl] at hμ
      rw [← Option.some.inj hμ]
      rfl)
  rw [next?_eq_iterate]
  have hfuel : (ofDepth fuel (depth + 1)).fuel = fuel := rfl
  rw [hfuel]
  rcases fuel with _ | _ | n
  · exact .inl ⟨m, rfl⟩
  · exact .inl ⟨_, iterate_of_again hfirst 0⟩
  · exact .inr ((iterate_of_again hfirst (n + 1)).trans (iterate_of_done hsecond n))

/-- A reader that skips \relax never gets past a \fi that interrupts a test. -/
theorem starves_nextNonRelax? (fuel depth : Nat) (hread : token? m = .ok (some (.cs "fi")) m')
    (h : Interrupts m') : Starves (ofDepth fuel (depth + 1)).nextNonRelax? m := by
  unfold nextNonRelax?
  generalize hrounds : (ofDepth fuel (depth + 1)).fuel = rounds
  clear hrounds
  -- Every round that there is fuel for leads to a state like the one before.
  induction rounds generalizing m m' with
  | zero => exact ⟨m, rfl⟩
  | succ n ih =>
    rcases h.next? fuel depth hread with hstarves | hnext
    · exact (hstarves.bind _).bind _
    · obtain ⟨hagain, h⟩ := h.again
      refine .again ?_ (ih hagain h)
      rw [bind_of_ok hnext]
      dsimp only
      rw [bind_of_ok (isFrozen_apply _), bind_of_ok (meaning?_apply _ _),
        if_pos (by simp [meaningIn])]
      rfl

/-! ## On the way to the loop -/

/-- Reading starves if the expansion of the next token does. -/
theorem starves_next? (x : Expander) {t : Token} {μ : Meaning}
    (hread : token? m = .ok (some t) m') (hfrozen : m'.frozen = false)
    (hcommand : t.isCommand = true) (hμ : meaningIn m'.env t = some μ)
    (hexpandable : μ.isExpandable = true) (h : Starves (x.expand μ t) m') :
    Starves x.next? m := by
  rw [next?_eq_iterate]
  refine .iterate (.behind hread ?_) x.fuel
  dsimp only
  refine .behind (isFrozen_apply m') ?_
  rw [if_neg (by simp [hfrozen, hcommand])]
  refine .behind (meaning?_apply t m') ?_
  rw [hμ]
  simp only [hexpandable, if_true]
  exact h.bind _

theorem starves_expand {fuel depth : Nat} {t : Token} {μ : Meaning}
    (h : Starves ((ofDepth fuel depth).perform μ t) m) :
    Starves ((ofDepth fuel (depth + 1)).expand μ t) m := by
  rw [ofDepth_succ]
  exact Starves.blame (h.bind _) t

theorem starves_expandIf (x : Expander) (t : Test)
    (h : ∀ es, Starves (x.test t) ((m.note es).within (opening m.input.locator t.name false))) :
    Starves (x.expandIf t) m := by
  obtain ⟨es, hopen⟩ := openConditional_apply t.name false m
  exact .behind hopen (((h es).whilePending _).bind _)

theorem starves_scanInteger (x : Expander) (h : Starves x.next? m) : Starves x.scanInteger m := by
  unfold scanInteger
  cases x.fuel with
  | zero => exact ⟨m, rfl⟩
  | succ n => exact (Starves.iterate (h.bind _) x.fuel).bind _

end Expander

/-- Reading the next token of an input that is known. -/
theorem Eng.token?_of_next {m : Machine} {t : Token} (hmarked : m.marked = none)
    (hnext : (m.input.next m.env.lexicon).result = .ok (some t)) :
    ∃ es, token? m = .ok (some t)
      (Machine.ready
        (Machine.note { m with input := (m.input.next m.env.lexicon).source } es)) := by
  refine ⟨closeEvents m.traceLevel (m.input.next m.env.lexicon).closed, ?_⟩
  have hraw := rawToken_apply m
  dsimp only at hraw
  rw [hnext] at hraw
  rw [token?_of_rawToken hraw]
  simp only [Machine.ready, Machine.note, hmarked]
  rfl

namespace Setup

/-- An engine with the plain categories. -/
def plain : Setup :=
  { options := { preset := .plain } }

/-- The text that is read without end: the test of \ifnum begins with \scantokens, the
    argument of which is missing. -/
def endlessText : String :=
  "\\ifnum\\scantokens\\fi"

/-- The sources behind the tokens of the text. -/
def endlessSource : Nat → Source
  | 0 => (plain.withText endlessText "t").input
  | k + 1 => ((endlessSource k).next plain.machine.env.lexicon).source

theorem next_endlessSource :
    ((endlessSource 0).next plain.machine.env.lexicon).result = .ok (some (.cs "ifnum")) ∧
      ((endlessSource 1).next plain.machine.env.lexicon).result =
        .ok (some (.cs "scantokens")) ∧
      ((endlessSource 2).next plain.machine.env.lexicon).result =
        .ok (some (.cs "fi")) ∧
      (endlessSource 3).pending + 2 ≤ plain.machine.limits.pushback := by
  decide +kernel

/-- The engine has read `k` tokens of the text, and is as it was otherwise, apart from
    the conditionals. -/
structure HasRead (k : Nat) (m : Machine) : Prop where
  input : m.input = endlessSource k
  lexicon : m.env.lexicon = plain.machine.env.lexicon
  code : ∀ μ ∈ Meaning.primitives, m.env.code? μ.name = some μ
  marked : m.marked = none
  frozen : m.frozen = false
  limits : m.limits = plain.machine.limits

theorem hasRead_withText : HasRead 0 (plain.withText endlessText "t") :=
  ⟨rfl, rfl, fun _ => Meaning.primitive?_name_of_mem, rfl, rfl, rfl⟩

theorem HasRead.token? {k : Nat} {m : Machine} (h : HasRead k m) {t : Token}
    (hnext : ((endlessSource k).next plain.machine.env.lexicon).result = .ok (some t)) :
    ∃ m', Eng.token? m = .ok (some t) m' ∧ HasRead (k + 1) m' ∧ m'.env = m.env := by
  have hread := token?_of_next (t := t) h.marked
  rw [h.input, h.lexicon] at hread
  obtain ⟨es, hread⟩ := hread hnext
  exact ⟨_, hread, ⟨rfl, h.lexicon, h.code, rfl, rfl, h.limits⟩, rfl⟩

theorem HasRead.within {k : Nat} {m : Machine} (h : HasRead k m) (es : List Event)
    (c : Conditional) : HasRead k ((m.note es).within c) :=
  ⟨h.input, h.lexicon, h.code, h.marked, h.frozen, h.limits⟩

theorem starves_endless (fuel depth : Nat) :
    Starves (Expander.ofDepth fuel (depth + 3)).next? (plain.withText endlessText "t") := by
  obtain ⟨hifnum, hscantokens, hfi, hroom⟩ := next_endlessSource
  obtain ⟨m₁, hread₁, h₁, -⟩ := hasRead_withText.token? hifnum
  refine Expander.starves_next? _ hread₁ h₁.frozen rfl
    (h₁.code (.conditional (.test .number)) (by decide)) rfl ?_
  refine Expander.starves_expand (Expander.starves_expandIf _ .number fun es => ?_)
  refine (Expander.starves_scanInteger _ ?_).bind _
  -- From here on, \ifnum is waiting for the end of its test.
  have hwithin := h₁.within es (Expander.opening m₁.input.locator "ifnum" false)
  obtain ⟨m₂, hread₂, h₂, henv₂⟩ := hwithin.token? hscantokens
  refine Expander.starves_next? _ hread₂ h₂.frozen rfl
    (h₂.code (.expandable .scantokens) (by decide)) rfl ?_
  obtain ⟨m₃, hread₃, h₃, henv₃⟩ := h₂.token? hfi
  refine Expander.starves_expand (Starves.bind (Starves.bind ?_ _) _)
  refine Expander.starves_nextNonRelax? fuel depth hread₃
    ⟨h₃.code (.conditional .endIf) (by decide), ?_, h₃.marked, h₃.frozen, ?_⟩
  · rw [Machine.Interruptible, henv₃, henv₂]
    exact ⟨_, Array.back?_push .., rfl⟩
  · rw [h₃.input, h₃.limits]
    exact hroom

/-- There is no amount of fuel with which the reading of this text comes to an end. -/
theorem endless : ¬ ∃ n, ∀ m, withExpander n Expander.readAll
    (plain.withText endlessText "t") ≠ .error .outOfFuel m := by
  rintro ⟨n, hends⟩
  have hstarves := starves_endless n 4997
  obtain ⟨m, hm⟩ : Starves (withExpander n Expander.readAll) (plain.withText endlessText "t") :=
    .behind (get_apply _) (.iterate (hstarves.bind _) n)
  exact hends m hm

end Setup

end TexEngine
