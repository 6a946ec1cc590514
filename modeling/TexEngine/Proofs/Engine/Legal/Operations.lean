/-
  TexEngine.Proofs.Engine.Legal.Operations

  The disciplines of the engine, and the specifications of the basic operations.

  Expansion changes the input, the conditional stack and the notes about the run; of
  the environment, it changes nothing else but that control sequences which are
  undefined may become \relax, by a local assignment (`Env.Relaxes`).  Execution may
  change everything.  Both keep states legal, as long as the line numbers and nesting
  levels that are read stay in range.

  Scanning leaves the conditional stack alone, and it changes the input only within the
  limits.  Therefore the specifications of the scanners hold for every discipline that
  says more about the stack or about the input (`Expanding`), and those of execution for
  every discipline that says more about the input (`Executing`).
-/
import TexEngine.Proofs.Engine.Depth.Parallel
import TexEngine.Proofs.Engine.Legal.State
import TexEngine.Proofs.Input.Depth

namespace TexEngine

/-! ## What expansion does to the state -/

/-- Undefined control sequences with the given names have become \relax, one after the
    other and in the current group; conditionals may have been opened and closed. -/
inductive Env.Relaxes (env : Env Meaning) : List String → Env Meaning → Prop where
  | refl : Relaxes env [] env
  | relax {names : List String} {env' : Env Meaning} {name : String} (h : Relaxes env names env')
      (hname : env'.code? name = none) :
      Relaxes env (names ++ [name]) (env'.assign (.code name (some Meaning.relax)) false)
  | conditionals {names : List String} {env' : Env Meaning} (h : Relaxes env names env')
      (conditionals : Array Conditional) : Relaxes env names { env' with conditionals }

theorem Env.Relaxes.trans {env env' env'' : Env Meaning} {names names' : List String}
    (h : env.Relaxes names env') (h' : env'.Relaxes names' env'') :
    env.Relaxes (names ++ names') env'' := by
  induction h' with
  | refl => rwa [List.append_nil]
  | relax _ hname ih =>
    rw [← List.append_assoc]
    exact ih.relax hname
  | conditionals _ cs ih => exact ih.conditionals cs

/-- The parts of the state that expansion has nothing to do with. -/
def Machine.apart (m : Machine) : Machine :=
  { m with env := {}, input := {}, marked := none, frozen := false, log := #[], observed := {} }

/-- What expansion may do to the state. -/
structure Machine.Expands (m m' : Machine) : Prop where
  env : ∃ names, m.env.Relaxes names m'.env
  apart : m'.apart = m.apart
  highest_le : m.observed.highest ≤ m'.observed.highest

theorem Machine.Expands.refl (m : Machine) : m.Expands m :=
  ⟨⟨[], .refl⟩, rfl, Nat.le_refl _⟩

theorem Machine.Expands.trans {m₁ m₂ m₃ : Machine} (h : m₁.Expands m₂) (h' : m₂.Expands m₃) :
    m₁.Expands m₃ := by
  obtain ⟨names, henv⟩ := h.env
  obtain ⟨names', henv'⟩ := h'.env
  exact ⟨⟨_, henv.trans henv'⟩, h'.apart.trans h.apart, Nat.le_trans h.highest_le h'.highest_le⟩

/-- Where the environment stays as it is. -/
theorem Machine.Expands.of_env_eq {m m' : Machine} (henv : m'.env = m.env)
    (hapart : m'.apart = m.apart) (hhighest : m.observed.highest ≤ m'.observed.highest) :
    m.Expands m' :=
  ⟨⟨[], henv ▸ .refl⟩, hapart, hhighest⟩

/-- The count of expansions does not matter to a legal state. -/
theorem Machine.Legal.atDepth {m : Machine} (h : m.Legal) (n : Nat) : (m.atDepth n).Legal :=
  ⟨h.env, h.input, h.exact⟩

/-- Behind an expansion, one is counted less. -/
theorem Machine.Expands.of_nested {m m' : Machine} (h : (m.atDepth (m.depth + 1)).Expands m') :
    m.Expands (m'.atDepth (m'.depth - 1)) :=
  ⟨h.env, congrArg (fun p => p.atDepth (p.depth - 1)) h.apart, h.highest_le⟩

/-! ## What happens to the input -/

/-- The limits stay as they are, and the input changes only as they allow. -/
structure Machine.Advances (m m' : Machine) : Prop where
  limits : m'.limits = m.limits
  input : ∃ path, m.input.Passes m.limits.inputDepth path m'.input

theorem Machine.Advances.refl (m : Machine) : m.Advances m :=
  ⟨rfl, [], .refl⟩

theorem Machine.Advances.trans {m₁ m₂ m₃ : Machine} (h : m₁.Advances m₂) (h' : m₂.Advances m₃) :
    m₁.Advances m₃ := by
  obtain ⟨path, hpath⟩ := h.input
  obtain ⟨path', hpath'⟩ := h'.input
  rw [h.limits] at hpath'
  exact ⟨h'.limits.trans h.limits, path ++ path', hpath.trans hpath'⟩

/-- Where the input stays as it is. -/
theorem Machine.Advances.of_input_eq {m m' : Machine} (hlimits : m'.limits = m.limits)
    (hinput : m'.input = m.input) : m.Advances m' :=
  ⟨hlimits, [], hinput ▸ .refl⟩

/-- Where the input changes once. -/
theorem Machine.Advances.of_change {m m' : Machine} (hlimits : m'.limits = m.limits)
    (hinput : m.input.Change m.limits.inputDepth m'.input) : m.Advances m' :=
  ⟨hlimits, [m'.input], .of_change hinput⟩

theorem Machine.Advances.of_nested {m m' : Machine} (h : (m.atDepth (m.depth + 1)).Advances m') :
    m.Advances (m'.atDepth (m'.depth - 1)) :=
  ⟨h.limits, h.input⟩

/-! ## The disciplines -/

namespace Discipline

/-- The discipline of expansion. -/
def expanding : Discipline where
  rel := Machine.Expands
  refl := Machine.Expands.refl
  trans := Machine.Expands.trans
  good := Machine.LevelsInRange
  good_of_rel := fun h hgood => Nat.lt_of_le_of_lt h.highest_le hgood
  inv := Machine.Legal

/-- The discipline of expansion within the limits. -/
def advancing : Discipline where
  rel := fun m m' => m.Expands m' ∧ m.Advances m'
  refl := fun m => ⟨.refl m, .refl m⟩
  trans := fun h h' => ⟨h.1.trans h'.1, h.2.trans h'.2⟩
  good := Machine.LevelsInRange
  good_of_rel := fun h hgood => Nat.lt_of_le_of_lt h.1.highest_le hgood
  inv := Machine.Legal

/-- A discipline of expansion: what is said of states is as in `expanding`, and the
    discipline allows what expansion does outside of the conditional stack.  It does not
    matter that an expansion is counted while it goes on. -/
class Expanding (D : Discipline) : Prop where
  inv_eq : D.inv = Machine.Legal
  good_eq : D.good = Machine.LevelsInRange
  rel_of_nested : ∀ {m m' : Machine}, D.rel (m.atDepth (m.depth + 1)) m' →
    D.rel m (m'.atDepth (m'.depth - 1))
  rel : ∀ {m m' : Machine}, m.Expands m' → m.Advances m' →
    m'.env.conditionals = m.env.conditionals → D.rel m m'

/-- A discipline of expansion that allows changes of the conditional stack, too. -/
class Branching (D : Discipline) : Prop extends Expanding D where
  rel_of_expands : ∀ {m m' : Machine}, m.Expands m' → m.Advances m' → D.rel m m'

instance : Branching expanding where
  inv_eq := rfl
  good_eq := rfl
  rel_of_nested := Machine.Expands.of_nested
  rel h _ _ := h
  rel_of_expands h _ := h

instance : Branching advancing where
  inv_eq := rfl
  good_eq := rfl
  rel_of_nested h := ⟨h.1.of_nested, h.2.of_nested⟩
  rel h h' _ := ⟨h, h'⟩
  rel_of_expands h h' := ⟨h, h'⟩

/-- The discipline of execution. -/
def executing : Discipline where
  rel := fun m m' => m.observed.highest ≤ m'.observed.highest
  refl := fun _ => Nat.le_refl _
  trans := fun h h' => Nat.le_trans h h'
  good := Machine.LevelsInRange
  good_of_rel := fun h hgood => Nat.lt_of_le_of_lt h hgood
  inv := Machine.Legal

/-- A discipline of execution: what is said of states is as in `executing`, and the
    discipline allows everything that changes the input within the limits only. -/
class Executing (D : Discipline) : Prop where
  inv_eq : D.inv = Machine.Legal
  good_eq : D.good = Machine.LevelsInRange
  rel : ∀ {m m' : Machine}, m.observed.highest ≤ m'.observed.highest → m.Advances m' → D.rel m m'

instance : Executing executing :=
  ⟨rfl, rfl, fun h _ => h⟩

end Discipline

namespace Eng

open Discipline

variable {α : Type} {D E : Discipline} [Expanding D] [Executing E] {P : Prop} {Q : α → Prop}
  {act : Eng α}

/-- Expansion within the limits is part of execution. -/
theorem Spec.executing (h : Spec advancing P act Q) : Spec E P act Q :=
  h.of_rel (fun _ _ hrel => Executing.rel hrel.1.highest_le hrel.2) Executing.good_eq
    Executing.inv_eq

/-- What keeps to the discipline of expansion keeps to another one, if its states are
    related as that one wants it. -/
theorem Spec.of_after (h : Spec expanding P act Q) (hafter : ∀ m, D.rel m (act.after m)) :
    Spec D P act Q := by
  constructor
  intro m
  have hm := h.holds m
  have hrel := hafter m
  unfold after at hrel
  rw [Expanding.inv_eq (D := D), Expanding.good_eq (D := D)]
  cases hact : act m with
  | ok a m' =>
    rw [hact] at hm hrel
    exact ⟨hrel, hm.2⟩
  | error e m' =>
    rw [hact] at hm hrel
    exact ⟨hrel, hm.2⟩

/-- What stays within the limits and leaves the conditional stack alone keeps to every
    discipline of expansion. -/
theorem Spec.of_conditionals_eq (h : Spec expanding P act Q)
    (hadvances : ∀ m : Machine, m.Advances (act.after m))
    (hconditionals : ∀ m, (act.after m).env.conditionals = m.env.conditionals) :
    Spec D P act Q :=
  h.of_after fun m => Expanding.rel (h.rel_after m) (hadvances m) (hconditionals m)

/-- An expansion that is counted keeps to what it keeps to otherwise. -/
theorem nested_spec (h : Spec D P act Q) : Spec D P (nested act) Q := by
  constructor
  intro m
  have hm := h.holds (m.atDepth (m.depth + 1))
  rw [Expanding.inv_eq (D := D), Expanding.good_eq (D := D)] at hm ⊢
  cases hact : act (m.atDepth (m.depth + 1)) with
  | ok a m' =>
    rw [hact] at hm
    rw [nested_of_ok hact]
    refine ⟨Expanding.rel_of_nested hm.1, fun hP hlegal hgood => ?_⟩
    obtain ⟨hlegal', ha⟩ := hm.2 hP (hlegal.atDepth _) hgood
    exact ⟨hlegal'.atDepth _, ha⟩
  | error e m' =>
    rw [hact] at hm
    rw [nested_of_error hact]
    refine ⟨Expanding.rel_of_nested hm.1, fun hP hlegal hgood => ?_⟩
    exact (hm.2 hP (hlegal.atDepth _) hgood).atDepth _

/-! ## Basic operations -/

theorem get_spec : Spec D P (get : Eng Machine) Machine.Legal :=
  .of_conditionals_eq .get .refl fun _ => rfl

theorem env_spec : Spec D P env Env.Legal :=
  get_spec.bind fun _ => .pure fun hP => hP.2.env

theorem isFrozen_spec : Spec D P isFrozen fun _ => True :=
  get_spec.bind fun _ => .done

/-- A change that concerns only the input, the mark and the log. -/
theorem modifyInput_spec {g : Machine → Machine} (henv : ∀ m, (g m).env = m.env)
    (hobserved : ∀ m, (g m).observed = m.observed) (hapart : ∀ m, (g m).apart = m.apart)
    (hinput : P → ∀ m, m.Legal → (g m).input.Legal) :
    Spec expanding P (modify g) fun _ => True := by
  refine .modify (fun m => .of_env_eq (henv m) (hapart m) ?_) fun hP m hm _ => ?_
  · exact Nat.le_of_eq (congrArg Observations.highest (hobserved m).symm)
  · exact ⟨henv m ▸ hm.env, hinput hP m hm, hobserved m ▸ hm.exact⟩

/-- A change of the mark, the log and, within the limits, the input. -/
theorem modify_spec {g : Machine → Machine} (henv : ∀ m, (g m).env = m.env)
    (hobserved : ∀ m, (g m).observed = m.observed) (hapart : ∀ m, (g m).apart = m.apart)
    (hadvances : ∀ m : Machine, m.Advances (g m)) (hinput : P → ∀ m, m.Legal → (g m).input.Legal) :
    Spec D P (modify g) fun _ => True :=
  .of_conditionals_eq (modifyInput_spec henv hobserved hapart hinput) hadvances
    fun m => congrArg Env.conditionals (henv m)

theorem emit_spec (e : Event) : Spec D P (emit e) fun _ => True :=
  modify_spec (fun _ => rfl) (fun _ => rfl) (fun _ => rfl) (fun _ => .of_input_eq rfl rfl)
    fun _ _ hm => hm.input

theorem trace_spec (level : TraceLevel) (tracer : Tracer) (text : Unit → String) :
    Spec D P (trace level tracer text) fun _ => True := by
  refine get_spec.bind fun m => ?_
  cases m.traceLevel with
  | none => exact .done
  | some wanted =>
    dsimp only
    split
    · exact emit_spec _
    · exact .done

theorem opened_spec (name : String) (isFile : Bool) :
    Spec D P (opened name isFile) fun _ => True :=
  (trace_spec ..).seq fun _ => emit_spec _

theorem push_spec {ts : TokenList} (h : P → ts.Legal) :
    Spec D P (push ts) fun _ => True :=
  modify_spec (fun _ => rfl) (fun _ => rfl) (fun _ => rfl) (fun _ => .of_change rfl (.push ts))
    fun hP _ hm => Source.push_legal hm.input (h hP)

theorem pushBack_spec {t : Token} (h : P → t.Legal) :
    Spec D P (push [t]) fun _ => True :=
  push_spec fun hP => TokenList.legal_cons.mpr ⟨h hP, TokenList.legal_nil⟩

/-- Opening a text without a check is expansion, but it may exceed the limits. -/
theorem pushText_spec (text name : String) :
    Spec expanding P (pushText text name) fun _ => True := by
  have hpush : Spec expanding P
      (modify fun m => { m with input := m.input.pushText text name } : Eng Unit) fun _ => True :=
    modifyInput_spec (fun _ => rfl) (fun _ => rfl) (fun _ => rfl)
      fun _ _ hm => Source.pushReader_legal hm.input _
  exact hpush.seq fun _ => opened_spec ..

theorem includeFile_spec (fileName : String) :
    Spec expanding P (includeFile fileName) fun _ => True := by
  refine get_spec.bind fun m => (emit_spec _).seq fun _ => ?_
  cases hinclude : m.input.includeFile m.files fileName with
  | error f => exact .throw f
  | ok p =>
    obtain ⟨src, r⟩ := p
    refine Spec.seq (modifyInput_spec (fun _ => rfl) (fun _ => rfl) (fun _ => rfl) ?_)
      fun _ => opened_spec ..
    exact fun hP _ _ => Source.includeFile_legal hP.2.input hinclude

theorem checkInputDepth_spec : Spec D P checkInputDepth fun _ => True := by
  refine get_spec.bind fun m => ?_
  split
  · exact fail_spec ..
  · exact .done

/-- Behind a check of the limit, a further stream may be opened: what comes behind the check
    has to stay within the limits only where there is room for one. -/
theorem checked_spec {act : Eng Unit} (h : Spec expanding P act fun _ => True)
    (hadvances : ∀ m : Machine, m.input.depth < m.limits.inputDepth → m.Advances (act.after m))
    (hconditionals : ∀ m, (act.after m).env.conditionals = m.env.conditionals) :
    Spec D P (do checkInputDepth; act) fun _ => True := by
  -- Whether there is room is decided before anything changes, so the state behind is one of two.
  have hafter : ∀ m : Machine, Eng.after (do checkInputDepth; act) m =
      if m.input.depth ≥ m.limits.inputDepth then m else act.after m := by
    intro m
    unfold after
    by_cases hfull : m.input.depth ≥ m.limits.inputDepth
    · have hcheck : checkInputDepth m =
          .error (.tex { kind := .recursionTooDeep, details := ["input nesting"] }) m := by
        show (if m.input.depth ≥ m.limits.inputDepth then _ else _ : Eng Unit) m = _
        rw [if_pos hfull]
        rfl
      rw [bind_of_error hcheck, if_pos hfull]
    · have hcheck : checkInputDepth m = .ok () m := by
        show (if m.input.depth ≥ m.limits.inputDepth then _ else _ : Eng Unit) m = _
        rw [if_neg hfull]
        rfl
      rw [bind_of_ok hcheck, if_neg hfull]
  refine .of_conditionals_eq (checkInputDepth_spec.seq fun _ => h) (fun m => ?_) fun m => ?_
  · rw [hafter]
    split
    · exact .refl m
    · rename_i hroom
      exact hadvances m (Nat.not_le.mp hroom)
  · rw [hafter]
    split
    · rfl
    · exact hconditionals m

theorem legal_meaningIn {env : Env Meaning} (h : env.Legal) (t : Token) :
    ∀ μ ∈ meaningIn env t, μ.Legal := by
  unfold meaningIn
  split
  · intro μ hμ
    rw [Option.mem_some] at hμ
    rw [← hμ]
    exact Meaning.legal_relax
  · exact h.meaning? t

theorem meaning?_spec (t : Token) :
    Spec D P (meaning? t) fun μ? => ∀ μ ∈ μ?, μ.Legal := by
  have hafter : ∀ m, (meaning? t).after m = m := by
    intro m
    rw [after, meaning?_apply]
  refine .of_conditionals_eq ⟨fun m => ?_⟩ (fun m => ?_) fun m => ?_
  · rw [meaning?_apply]
    exact ⟨.refl m, fun _ hm _ => ⟨hm, legal_meaningIn hm.env t⟩⟩
  · rw [hafter]
    exact .refl m
  · rw [hafter]

theorem showToken_spec (t : Token) : Spec D P (showToken t) fun _ => True :=
  env_spec.seq fun _ => .done

/-! ## Notes -/

theorem observe_spec {fits : Bool} (h : P → fits = true) :
    Spec D P (observe fits) fun _ => True := by
  cases fits with
  | true => exact .done
  | false =>
    -- The note is allowed as a change; that it is never made is what `h` says.
    refine .of_conditionals_eq (.modify (fun m => .of_env_eq rfl rfl (Nat.le_refl _)) fun hP => ?_)
      (fun _ => .of_input_eq rfl rfl) fun _ => rfl
    exact absurd (h hP) Bool.false_ne_true

/-- A level that was noted is in range. -/
theorem observeLevel_spec (n : Nat) :
    Spec D P (observeLevel n) fun _ => n < 2 ^ 31 := by
  refine .of_conditionals_eq ⟨fun m => ?_⟩ (fun _ => .of_input_eq rfl rfl) fun _ => rfl
  refine ⟨.of_env_eq rfl rfl (Nat.le_max_left ..), fun _ hm hgood => ?_⟩
  exact ⟨⟨hm.env, hm.input, hm.exact⟩, Nat.lt_of_le_of_lt (Nat.le_max_right ..) hgood⟩

/-! ## Reading -/

theorem env_after_rawToken (m : Machine) : (rawToken.after m).env = m.env := by
  rw [after_rawToken]
  rfl

theorem advances_rawToken (m : Machine) : m.Advances (rawToken.after m) := by
  rw [after_rawToken]
  exact .of_change rfl (.next m.env.lexicon)

/-- Behind a reading with marks, only these are different. -/
theorem exists_after_token? (m : Machine) :
    ∃ frozen, token?.after m = { rawToken.after m with marked := none, frozen } := by
  unfold after token?
  cases rawToken m with
  | ok t? m' => exact ⟨_, rfl⟩
  | error f m' => exact ⟨_, rfl⟩

theorem env_after_token? (m : Machine) : (token?.after m).env = m.env := by
  obtain ⟨frozen, hafter⟩ := exists_after_token? m
  rw [hafter]
  exact env_after_rawToken m

theorem advances_token? (m : Machine) : m.Advances (token?.after m) := by
  obtain ⟨frozen, hafter⟩ := exists_after_token? m
  have hraw := advances_rawToken m
  rw [hafter]
  exact ⟨hraw.limits, hraw.input⟩

theorem rawToken_spec : Spec D P rawToken fun t? => ∀ t ∈ t?, t.Legal := by
  refine .of_conditionals_eq ⟨fun m => ?_⟩ advances_rawToken
    fun m => congrArg Env.conditionals (env_after_rawToken m)
  have hnext := fun h : m.Legal =>
    Source.next_legal (Env.Legal.endLineChar m.env) h.input
  rw [rawToken_apply]
  dsimp only
  cases hresult : (m.input.next m.env.lexicon).result with
  | error f =>
    exact ⟨.of_env_eq rfl rfl (Nat.le_refl _), fun _ hm _ => ⟨hm.env, (hnext hm).2, hm.exact⟩⟩
  | ok t? =>
    refine ⟨.of_env_eq rfl rfl (Nat.le_refl _), fun _ hm _ => ?_⟩
    refine ⟨⟨hm.env, (hnext hm).2, hm.exact⟩, fun t ht => (hnext hm).1 t ?_⟩
    rw [hresult, Option.mem_def.mp ht]

theorem token?_spec : Spec D P token? fun t? => ∀ t ∈ t?, t.Legal := by
  refine .of_conditionals_eq ⟨fun m => ?_⟩ advances_token?
    fun m => congrArg Env.conditionals (env_after_token? m)
  have hraw := (rawToken_spec (D := expanding) (P := P)).holds m
  unfold token?
  cases hread : rawToken m with
  | ok t? m' =>
    rw [hread] at hraw
    refine ⟨hraw.1.trans (.of_env_eq rfl rfl (Nat.le_refl _)), fun hP hm hgood => ?_⟩
    obtain ⟨hm', ht⟩ := hraw.2 hP hm hgood
    exact ⟨⟨hm'.env, hm'.input, hm'.exact⟩, ht⟩
  | error f m' =>
    rw [hread] at hraw
    refine ⟨hraw.1.trans (.of_env_eq rfl rfl (Nat.le_refl _)), fun hP hm hgood => ?_⟩
    have hm' := hraw.2 hP hm hgood
    exact ⟨hm'.env, hm'.input, hm'.exact⟩

/-- Refusing a token, which is put back. -/
theorem refuse_spec {t : Token} (h : P → t.Legal) (kind : ErrorKind) (t' : Token)
    (details : List String) :
    Spec D P (do push [t]; failAt kind t' details : Eng α) Q :=
  (pushBack_spec h).seq fun _ => failAt_spec ..

end Eng

end TexEngine
