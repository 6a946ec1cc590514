/-
  TexEngine.Proofs.Engine.Depth.Parallel

  Runs of the engine that differ in how many expansions are counted.  The counter is for the
  limit alone: two machines that are the same but for the counter stay so, whatever is done with
  both of them.

  `Levels` are the counts of two such machines, and their common limits; `Parallel` says that two
  operations do the same with both machines and leave both counters as they were.  Operations that
  use an expander are parallel if their expanders are, so that expanders that differ in nothing
  that shows at these counts may take the place of one another.  This is what the counter is good
  for, and also why it may be left out of account elsewhere.
-/
import TexEngine.Engine.Value
import TexEngine.Proofs.Engine.Discipline

namespace TexEngine

/-- The machine with another count of expansions. -/
def Machine.atDepth (m : Machine) (n : Nat) : Machine :=
  { m with depth := n }

namespace Eng

variable {α : Type} {act : Eng α} {m m' : Machine}

theorem nested_of_ok {a : α} (h : act (m.atDepth (m.depth + 1)) = .ok a m') :
    nested act m = .ok a (m'.atDepth (m'.depth - 1)) := by
  have hact : act { m with depth := m.depth + 1 } = .ok a m' := h
  rw [nested, hact]
  rfl

theorem nested_of_error {f : Fault} (h : act (m.atDepth (m.depth + 1)) = .error f m') :
    nested act m = .error f (m'.atDepth (m'.depth - 1)) := by
  have hact : act { m with depth := m.depth + 1 } = .error f m' := h
  rw [nested, hact]
  rfl

theorem exists_of_nested_eq_ok {a : α} (h : nested act m = .ok a m') :
    ∃ n, act (m.atDepth (m.depth + 1)) = .ok a n ∧ m' = n.atDepth (n.depth - 1) := by
  cases hact : act (m.atDepth (m.depth + 1)) with
  | ok b n =>
    rw [nested_of_ok hact] at h
    injection h with hb hn
    exact ⟨n, by rw [hb], hn.symm⟩
  | error f n =>
    rw [nested_of_error hact] at h
    contradiction

end Eng

/-- The counts of two machines, and the limits of both. -/
structure Levels where
  left : Nat
  right : Nat
  limits : Limits

namespace Levels

open Eng

/-- The counts inside of one more expansion. -/
def deeper (ℓ : Levels) : Levels :=
  { ℓ with left := ℓ.left + 1, right := ℓ.right + 1 }

/-- Two machines with these counts that are the same otherwise. -/
structure Twins (ℓ : Levels) (m m' : Machine) : Prop where
  depth : m.depth = ℓ.left
  limits : m.limits = ℓ.limits
  other : m' = m.atDepth ℓ.right

/-- Two outcomes that are the same but for the counts. -/
inductive Outcomes {α : Type} (ℓ : Levels) :
    EStateM.Result Fault Machine α → EStateM.Result Fault Machine α → Prop where
  | ok (a : α) {m m' : Machine} (h : ℓ.Twins m m') : Outcomes ℓ (.ok a m) (.ok a m')
  | error (f : Fault) {m m' : Machine} (h : ℓ.Twins m m') : Outcomes ℓ (.error f m) (.error f m')

/-- Two operations do the same with two machines that are the same but for the counts. -/
structure Parallel {α : Type} (ℓ : Levels) (act act' : Eng α) : Prop where
  outcomes : ∀ m m', ℓ.Twins m m' → ℓ.Outcomes (act m) (act' m')

/-- Two expanders do the same at these counts. -/
structure Expanders (ℓ : Levels) (x x' : Expander) : Prop where
  fuel : x'.fuel = x.fuel
  expand : ∀ μ t, ℓ.Parallel (x.expand μ t) (x'.expand μ t)

variable {ℓ : Levels} {α β σ : Type}

/-- A change that has nothing to do with the counts. -/
theorem Twins.congr {m m' : Machine} (h : ℓ.Twins m m') {n : Machine} (hdepth : n.depth = m.depth)
    (hlimits : n.limits = m.limits) : ℓ.Twins n (n.atDepth ℓ.right) :=
  ⟨hdepth.trans h.depth, hlimits.trans h.limits, rfl⟩

/-- With the same count, the machines are the same. -/
theorem Twins.eq_of_left_eq {m m' : Machine} (h : ℓ.Twins m m') (hcounts : ℓ.left = ℓ.right) :
    m' = m := by
  rw [h.other, ← hcounts, ← h.depth]
  rfl

/-! ## Rules -/

namespace Parallel

variable {act act' : Eng α} {f f' : α → Eng β}

theorem pure (a : α) : ℓ.Parallel (pure a : Eng α) (pure a : Eng α) :=
  ⟨fun _ _ h => .ok a h⟩

theorem throw (e : Fault) : ℓ.Parallel (throw e : Eng α) (throw e : Eng α) :=
  ⟨fun _ _ h => .error e h⟩

theorem bind (h : ℓ.Parallel act act') (hf : ∀ a, ℓ.Parallel (f a) (f' a)) :
    ℓ.Parallel (act >>= f) (act' >>= f') := by
  constructor
  intro m m' hm
  have hact := h.outcomes m m' hm
  show ℓ.Outcomes (EStateM.bind act f m) (EStateM.bind act' f' m')
  unfold EStateM.bind
  generalize act m = r at hact ⊢
  generalize act' m' = r' at hact ⊢
  cases hact with
  | ok a hn => exact (hf a).outcomes _ _ hn
  | error e hn => exact .error e hn

theorem map {g : α → β} (h : ℓ.Parallel act act') : ℓ.Parallel (g <$> act) (g <$> act') :=
  h.bind fun a => .pure (g a)

theorem ite (c : Prop) [Decidable c] {alt alt' : Eng α} (h : ℓ.Parallel act act')
    (halt : ℓ.Parallel alt alt') :
    ℓ.Parallel (if c then act else alt) (if c then act' else alt') := by
  split
  · exact h
  · exact halt

/-- What is done with a machine that was read does not depend on the counts. -/
theorem get_bind {f f' : Machine → Eng β}
    (h : ∀ m m', ℓ.Twins m m' → ℓ.Parallel (f m) (f' m')) :
    ℓ.Parallel (get >>= f) (get >>= f') :=
  ⟨fun m m' hm => (h m m' hm).outcomes m m' hm⟩

/-- An operation that looks at the machine first may take the place of one that need not. -/
theorem get_right {f' : Machine → Eng α}
    (h : ∀ m, m.depth = ℓ.right → m.limits = ℓ.limits → ℓ.Parallel act (f' m)) :
    ℓ.Parallel act (get >>= f') := by
  constructor
  rintro m _ ⟨hdepth, hlimits, rfl⟩
  exact (h (m.atDepth ℓ.right) rfl hlimits).outcomes m _ ⟨hdepth, hlimits, rfl⟩

theorem set {m m' : Machine} (h : ℓ.Twins m m') :
    ℓ.Parallel (set m : Eng PUnit) (set m' : Eng PUnit) :=
  ⟨fun _ _ _ => .ok () h⟩

theorem modify {g : Machine → Machine} (h : ∀ m m', ℓ.Twins m m' → ℓ.Twins (g m) (g m')) :
    ℓ.Parallel (modify g) (modify g) :=
  ⟨fun m m' hm => .ok () (h m m' hm)⟩

theorem tryCatch {handler handler' : Fault → Eng α} (h : ℓ.Parallel act act')
    (hhandler : ∀ e, ℓ.Parallel (handler e) (handler' e)) :
    ℓ.Parallel (tryCatch act handler) (tryCatch act' handler') := by
  constructor
  intro m m' hm
  have hact := h.outcomes m m' hm
  show ℓ.Outcomes (EStateM.tryCatch act handler m) (EStateM.tryCatch act' handler' m')
  unfold EStateM.tryCatch
  generalize act m = r at hact ⊢
  generalize act' m' = r' at hact ⊢
  cases hact with
  | ok a hn => exact .ok a hn
  | error e hn => exact (hhandler e).outcomes _ _ hn

theorem blame (t : Token) (h : ℓ.Parallel act act') : ℓ.Parallel (blame t act) (blame t act') := by
  constructor
  intro m m' hm
  have hact := h.outcomes m m' hm
  unfold Eng.blame
  generalize act m = r at hact ⊢
  generalize act' m' = r' at hact ⊢
  cases hact with
  | ok a hn => exact .ok a hn
  | error e hn =>
    -- The position that is added is that of the input.
    obtain ⟨hdepth, hlimits, rfl⟩ := hn
    cases e <;> exact .error _ ⟨hdepth, hlimits, rfl⟩

theorem iterate {step step' : σ → Eng (Step σ α)} {n n' : Nat} (hn : n' = n)
    (hstep : ∀ s, ℓ.Parallel (step s) (step' s)) (s : σ) :
    ℓ.Parallel (iterate step n s) (iterate step' n' s) := by
  subst hn
  induction n' generalizing s with
  | zero => exact .throw _
  | succ n ih =>
    refine (hstep s).bind fun r => ?_
    cases r with
    | again s => exact ih s
    | done a => exact .pure a

/-- Inside of an expansion, both counts are one higher. -/
theorem nested (h : ℓ.deeper.Parallel act act') : ℓ.Parallel (nested act) (nested act') := by
  constructor
  rintro m _ ⟨hdepth, hlimits, rfl⟩
  have hact := h.outcomes (m.atDepth (m.depth + 1)) (m.atDepth (ℓ.right + 1))
    ⟨congrArg (· + 1) hdepth, hlimits, rfl⟩
  cases hleft : act (m.atDepth (m.depth + 1)) with
  | ok a n =>
    rw [hleft] at hact
    generalize hright : act' (m.atDepth (ℓ.right + 1)) = r at hact
    cases hact with | ok _ hn =>
    obtain ⟨hdepth, hlimits, rfl⟩ := hn
    rw [nested_of_ok hleft, nested_of_ok hright]
    exact .ok a ⟨congrArg (· - 1) hdepth, hlimits, rfl⟩
  | error f n =>
    rw [hleft] at hact
    generalize hright : act' (m.atDepth (ℓ.right + 1)) = r at hact
    cases hact with | error _ hn =>
    obtain ⟨hdepth, hlimits, rfl⟩ := hn
    rw [nested_of_error hleft, nested_of_error hright]
    exact .error f ⟨congrArg (· - 1) hdepth, hlimits, rfl⟩

end Parallel

/-! ## What follows for one machine -/

namespace Parallel

variable {act act' : Eng α} {m : Machine}

/-- Operations that are parallel at the count of a machine do the same with it. -/
theorem apply_eq (h : Parallel ⟨m.depth, m.depth, m.limits⟩ act act') : act' m = act m := by
  suffices hsame : ∀ r r', Outcomes ⟨m.depth, m.depth, m.limits⟩ r r' → r' = r from
    hsame _ _ (h.outcomes m m ⟨rfl, rfl, rfl⟩)
  intro r r' hm
  cases hm with
  | ok a hn => rw [hn.eq_of_left_eq rfl]
  | error f hn => rw [hn.eq_of_left_eq rfl]

/-- An operation leaves the count as it was. -/
theorem depth_after (h : Parallel ⟨m.depth, m.depth, m.limits⟩ act act') :
    (act.after m).depth = m.depth := by
  have hm := h.outcomes m m ⟨rfl, rfl, rfl⟩
  generalize hact : act m = r at hm
  generalize act' m = r' at hm
  cases hm with
  | ok a hn => rw [after_of_ok hact, hn.depth]
  | error f hn => rw [after_of_error hact, hn.depth]

/-- It makes no difference to an operation that does not look at the count that it is counted. -/
theorem nested_eq (hact : ∀ ℓ : Levels, ℓ.Parallel act act) : Eng.nested act = act := by
  funext m
  have hm := (hact ⟨m.depth, m.depth + 1, m.limits⟩).outcomes m (m.atDepth (m.depth + 1))
    ⟨rfl, rfl, rfl⟩
  -- The count behind the operation is the one in front of it, and one is taken off again.
  have hrestored : ∀ n : Machine, n.depth = m.depth → n.atDepth (m.depth + 1 - 1) = n := by
    intro n hn
    rw [Nat.add_sub_cancel, ← hn]
    rfl
  generalize act m = r at hm ⊢
  generalize hinner : act (m.atDepth (m.depth + 1)) = r' at hm
  cases hm with
  | ok a hn =>
    obtain ⟨hdepth, -, rfl⟩ := hn
    rw [nested_of_ok hinner]
    exact congrArg (EStateM.Result.ok a) (hrestored _ hdepth)
  | error f hn =>
    obtain ⟨hdepth, -, rfl⟩ := hn
    rw [nested_of_error hinner]
    exact congrArg (EStateM.Result.error f) (hrestored _ hdepth)

end Parallel

/-! ## Operations that use no expander -/

/-- A change of a machine that has nothing to do with the count. -/
theorem modify_parallel {g : Machine → Machine} (hdepth : ∀ m, (g m).depth = m.depth)
    (hlimits : ∀ m, (g m).limits = m.limits)
    (hother : ∀ m, g (m.atDepth ℓ.right) = (g m).atDepth ℓ.right) :
    ℓ.Parallel (modify g) (modify g) := by
  refine .modify ?_
  rintro m _ ⟨hm, hl, rfl⟩
  exact ⟨(hdepth m).trans hm, (hlimits m).trans hl, hother m⟩

theorem emit_parallel (e : Event) : ℓ.Parallel (emit e) (emit e) :=
  modify_parallel (fun _ => rfl) (fun _ => rfl) fun _ => rfl

theorem trace_parallel (level : TraceLevel) (tracer : Tracer) (text : Unit → String) :
    ℓ.Parallel (trace level tracer text) (trace level tracer text) := by
  refine .get_bind ?_
  rintro m _ ⟨-, -, rfl⟩
  dsimp only [Machine.atDepth]
  split
  · exact .ite _ (emit_parallel _) (.pure ())
  · exact .pure ()

theorem opened_parallel (name : String) (isFile : Bool) :
    ℓ.Parallel (opened name isFile) (opened name isFile) :=
  (trace_parallel ..).bind fun _ => emit_parallel _

theorem closed_parallel (ss : List StreamId) : ℓ.Parallel (closed ss) (closed ss) := by
  induction ss with
  | nil => exact .pure ()
  | cons s ss ih => exact (trace_parallel ..).bind fun _ => (emit_parallel _).bind fun _ => ih

theorem observe_parallel (fits : Bool) : ℓ.Parallel (observe fits) (observe fits) :=
  .ite _ (.pure ()) (modify_parallel (fun _ => rfl) (fun _ => rfl) fun _ => rfl)

theorem observeLevel_parallel (n : Nat) : ℓ.Parallel (observeLevel n) (observeLevel n) :=
  modify_parallel (fun _ => rfl) (fun _ => rfl) fun _ => rfl

theorem fail_parallel (kind : ErrorKind) (details : List String) :
    ℓ.Parallel (fail kind details : Eng α) (fail kind details) :=
  .throw _

theorem failAt_parallel (kind : ErrorKind) (t : Token) (details : List String) :
    ℓ.Parallel (failAt kind t details : Eng α) (failAt kind t details) :=
  .throw _

theorem failHere_parallel (kind : ErrorKind) (details : List String) :
    ℓ.Parallel (failHere kind details : Eng α) (failHere kind details) :=
  .get_bind fun m m' hm => by
    obtain ⟨-, -, rfl⟩ := hm
    exact .throw _

theorem expect_parallel (t? : Option Token) (kind : ErrorKind) (details : List String) :
    ℓ.Parallel (expect t? kind details) (expect t? kind details) := by
  cases t? with
  | some t => exact .pure t
  | none => exact failHere_parallel kind details

/-- Reading a token that has to be there. -/
theorem Parallel.required {read read' : Eng (Option Token)} {f f' : Token → Eng β}
    {kind : ErrorKind} {details : List String} (h : ℓ.Parallel read read')
    (hf : ∀ t, ℓ.Parallel (f t) (f' t)) :
    ℓ.Parallel (do f (← expect (← read) kind details)) (do f' (← expect (← read') kind details)) :=
  h.bind fun t? => (expect_parallel t? kind details).bind hf

theorem arith_parallel (r : Except ArithFault α) : ℓ.Parallel (arith r) (arith r) := by
  cases r with
  | ok a => exact .pure a
  | error f => exact .throw _

theorem env_parallel : ℓ.Parallel env env :=
  .get_bind fun m m' hm => by
    obtain ⟨-, -, rfl⟩ := hm
    exact .pure _

theorem modifyEnv_parallel (f : Env Meaning → Env Meaning) :
    ℓ.Parallel (modifyEnv f) (modifyEnv f) :=
  modify_parallel (fun _ => rfl) (fun _ => rfl) fun _ => rfl

theorem assign_parallel (a : Assignment Meaning) (global : Bool) :
    ℓ.Parallel (assign a global) (assign a global) :=
  modifyEnv_parallel _

theorem rawToken_parallel : ℓ.Parallel rawToken rawToken := by
  refine .get_bind ?_
  rintro m _ ⟨hdepth, hlimits, rfl⟩
  refine .bind (.set ⟨hdepth, hlimits, rfl⟩) fun _ => (closed_parallel _).bind fun _ => ?_
  dsimp only [Machine.atDepth]
  split
  · exact .pure _
  · exact .throw _

/-- The mark is taken off behind the token, however it is read. -/
theorem token?_parallel : ℓ.Parallel token? token? := by
  constructor
  intro m m' hm
  have hraw := rawToken_parallel.outcomes m m' hm
  obtain ⟨-, -, rfl⟩ := hm
  unfold token?
  generalize rawToken m = r at hraw ⊢
  generalize rawToken (m.atDepth ℓ.right) = r' at hraw ⊢
  cases hraw with
  | ok t? hn =>
    obtain ⟨hdepth, hlimits, rfl⟩ := hn
    exact .ok t? ⟨hdepth, hlimits, rfl⟩
  | error f hn =>
    obtain ⟨hdepth, hlimits, rfl⟩ := hn
    exact .error f ⟨hdepth, hlimits, rfl⟩

theorem isFrozen_parallel : ℓ.Parallel isFrozen isFrozen :=
  .get_bind fun m m' hm => by
    obtain ⟨-, -, rfl⟩ := hm
    exact .pure _

theorem push_parallel (ts : TokenList) : ℓ.Parallel (push ts) (push ts) :=
  modify_parallel (fun _ => rfl) (fun _ => rfl) fun _ => rfl

theorem pushText_parallel (text name : String) :
    ℓ.Parallel (pushText text name) (pushText text name) :=
  .bind (modify_parallel (fun _ => rfl) (fun _ => rfl) fun _ => rfl) fun _ => opened_parallel ..

theorem includeFile_parallel (fileName : String) :
    ℓ.Parallel (includeFile fileName) (includeFile fileName) := by
  refine .get_bind ?_
  rintro m _ ⟨-, -, rfl⟩
  refine (emit_parallel _).bind fun _ => ?_
  dsimp only [Machine.atDepth]
  split
  · refine .bind (modify_parallel (fun _ => rfl) (fun _ => rfl) fun _ => rfl) fun _ => ?_
    exact opened_parallel ..
  · exact .throw _

theorem checkInputDepth_parallel : ℓ.Parallel checkInputDepth checkInputDepth := by
  refine .get_bind ?_
  rintro m _ ⟨-, -, rfl⟩
  exact .ite _ (fail_parallel ..) (.pure ())

theorem meaning?_parallel (t : Token) : ℓ.Parallel (meaning? t) (meaning? t) :=
  .ite _ (.pure _) (env_parallel.bind fun _ => .pure _)

theorem showToken_parallel (t : Token) : ℓ.Parallel (showToken t) (showToken t) :=
  env_parallel.bind fun _ => .pure _

theorem typeset_parallel (n : Node) : ℓ.Parallel (typeset n) (typeset n) :=
  modify_parallel (fun _ => rfl) (fun _ => rfl) fun _ => rfl

theorem logBoxes_parallel (events : List BoxEvent) :
    ℓ.Parallel (logBoxes events) (logBoxes events) :=
  modify_parallel (fun _ => rfl) (fun _ => rfl) fun _ => rfl

/-! ## Reading with expansion -/

variable {x x' : Expander} (h : ℓ.Expanders x x')
include h

theorem next?_parallel : ℓ.Parallel x.next? x'.next? := by
  refine .iterate h.fuel (fun _ => token?_parallel.bind fun t? => ?_) _
  cases t? with
  | none => exact .pure _
  | some t =>
    refine isFrozen_parallel.bind fun frozen => .ite _ (.pure _) ?_
    refine (meaning?_parallel t).bind fun μ? => ?_
    cases μ? with
    | none => exact .pure _
    | some μ => exact .ite _ ((h.expand μ t).bind fun _ => .pure _) (.pure _)

theorem nextNonSpace?_parallel : ℓ.Parallel x.nextNonSpace? x'.nextNonSpace? := by
  refine .iterate h.fuel (fun _ => (next?_parallel h).bind fun t? => ?_) _
  cases t? with
  | none => exact .pure _
  | some t => exact .pure _

theorem nextNonRelax?_parallel : ℓ.Parallel x.nextNonRelax? x'.nextNonRelax? := by
  refine .iterate h.fuel (fun _ => (next?_parallel h).bind fun t? => ?_) _
  cases t? with
  | none => exact .pure _
  | some t =>
    refine isFrozen_parallel.bind fun frozen => ?_
    exact (meaning?_parallel t).bind fun μ? => .ite _ (.pure _) (.pure _)

end Levels

end TexEngine
