/-
  TexEngine.Proofs.Engine.Scoping.Reading

  The assignments around an assignment.  While a command reads what it needs, undefined
  control sequences may become \relax, the name that is being defined means \relax for a
  while, and a box may be taken out of its register; behind its own assignment, a space may
  be skipped.  All of these are events in the course of the environment, and none of them
  is a global assignment to the place of the command, unless its own assignment is global.
-/
import TexEngine.Proofs.Engine.History.Execute
import TexEngine.Proofs.Engine.Scoping.Effect

namespace TexEngine

open Eng Discipline

/-! ## Events while a command is read -/

namespace ScopeEvent

/-- A local assignment to a control sequence or a box register. -/
inductive IsQuiet : ScopeEvent → Prop where
  | code (name : String) : IsQuiet (.assigned (.code name) false)
  | box (name : String) : IsQuiet (.assigned (.box name) false)

/-- What happens while a command is read that assigns to the given place in the given
    scope. -/
def InReading (p : Place) (global : Bool) (e : ScopeEvent) : Prop :=
  e.IsQuiet ∨ e = .assigned p global

variable {p : Place} {e : ScopeEvent} {es : List ScopeEvent}

theorem IsQuiet.isScalar {q : Place} {global : Bool} (h : IsQuiet (.assigned q global)) :
    q.IsScalar ∧ global = false := by
  cases h with
  | code name => exact ⟨True.intro, rfl⟩
  | box name => exact ⟨True.intro, rfl⟩

/-- Reading opens and closes no groups. -/
theorem depthAfter?_of_inReading {global : Bool} (hes : ∀ e ∈ es, e.InReading p global) (n : Nat) :
    depthAfter? n es = some n := by
  refine depthAfter?_of_forall_assigned (fun e he => ?_) n
  rcases hes e he with hquiet | rfl
  · cases hquiet with
    | code name => exact ⟨_, _, rfl⟩
    | box name => exact ⟨_, _, rfl⟩
  · exact ⟨p, global, rfl⟩

/-- A command that assigns locally only assigns locally while it is read. -/
theorem localAt_of_inReading (hp : p.IsScalar) (hes : ∀ e ∈ es, e.InReading p false) :
    LocalAt p es := by
  apply LocalAt.of_isScalar hp
  · intro q global hq
    rcases hes _ hq with hquiet | heq
    · exact hquiet.isScalar.1
    · obtain ⟨rfl, -⟩ := ScopeEvent.assigned.inj heq
      exact hp
  · intro hglobal
    rcases hes _ hglobal with hquiet | heq
    · exact Bool.noConfusion hquiet.isScalar.2
    · exact Bool.noConfusion (ScopeEvent.assigned.inj heq).2

end ScopeEvent

/-! ## What reading leads to -/

/-- An effect was read between two environments.  What happens meanwhile is what happens
    `InReading`, and behind the assignment, only other places are assigned to. -/
structure Effect.ReadBetween (e : Effect) (global : Bool) (env env' : Env Meaning) : Prop where
  course : ∀ s ∈ e.setting, ∃ es, env.Course es env' ∧ ∀ ev ∈ es, ev.InReading s.place global
  rest : ∀ s ∈ e.setting, ∀ m m', e.rest m = .ok () m' →
    ∃ es, m.env.Course es m'.env ∧ ∀ ev ∈ es, ev.IsQuiet ∧ ScopeEvent.Avoids s.place [ev]

namespace Eng

variable {α β : Type} {act : Eng α} {Q : α → Prop} {m m' : Machine}

/-- When the operation succeeds, only local assignments to control sequences and box
    registers have been made. -/
def Quiet (act : Eng α) : Prop :=
  ∀ m a m', act m = .ok a m' → ∃ es, m.env.Course es m'.env ∧ ∀ e ∈ es, e.IsQuiet

theorem Quiet.bind {f : α → Eng β} (h : Quiet act) (hf : ∀ a, Quiet (f a)) :
    Quiet (act >>= f) := by
  intro m b m' hb
  obtain ⟨a, m₁, hact, hb⟩ := exists_of_bind_eq_ok hb
  obtain ⟨es, hcourse, hes⟩ := h m a m₁ hact
  obtain ⟨es', hcourse', hes'⟩ := hf a m₁ b m' hb
  exact ⟨es ++ es', hcourse.trans hcourse', List.forall_mem_append.mpr ⟨hes, hes'⟩⟩

/-- Expansion only relaxes control sequences. -/
theorem Spec.course (h : Spec expanding False act Q) {a : α} (hact : act m = .ok a m') :
    ∃ es, m.env.Course es m'.env ∧ ∀ e ∈ es, ∃ name, e = .assigned (.code name) false := by
  have hexpands : m.Expands (act.after m) := h.rel_after m
  rw [after_of_ok hact] at hexpands
  obtain ⟨names, henv⟩ := hexpands.env
  exact henv.course

theorem Spec.quiet (h : Spec expanding False act Q) : Quiet act := by
  intro m a m' hact
  obtain ⟨es, hcourse, hes⟩ := h.course hact
  refine ⟨es, hcourse, fun e he => ?_⟩
  obtain ⟨name, rfl⟩ := hes e he
  exact .code name

/-- All effects that the operation gives were read while it was performed. -/
def Prepares (global : Bool) (act : Eng Effect) : Prop :=
  ∀ m e m', act m = .ok e m' → e.ReadBetween global m.env m'.env

variable {global : Bool}

theorem Prepares.throw (f : Fault) : Prepares global (throw f : Eng Effect) := by
  intro m e m' he
  contradiction

/-- An effect without a setting assigns to no place. -/
theorem Prepares.none (rest : Eng Unit) : Prepares global (pure { rest } : Eng Effect) := by
  intro m e m' he
  obtain ⟨rfl, rfl⟩ := EStateM.Result.ok.inj he
  exact ⟨nofun, nofun⟩

theorem Prepares.set (s : Setting Meaning) : Prepares global (pure (.set s) : Eng Effect) := by
  intro m e m' he
  obtain ⟨rfl, rfl⟩ := EStateM.Result.ok.inj he
  refine ⟨fun s hs => ⟨[], .refl, List.forall_mem_nil _⟩, fun s hs m m' hrest => ?_⟩
  obtain ⟨-, rfl⟩ := EStateM.Result.ok.inj hrest
  exact ⟨[], .refl, List.forall_mem_nil _⟩

/-- What is read quietly in front of the rest. -/
theorem Quiet.prepares {f : α → Eng Effect} (h : Quiet act) (hf : ∀ a, Prepares global (f a)) :
    Prepares global (act >>= f) := by
  intro m e m' he
  obtain ⟨a, m₁, hact, he⟩ := exists_of_bind_eq_ok he
  obtain ⟨es, hcourse, hes⟩ := h m a m₁ hact
  obtain ⟨hread, hrest⟩ := hf a m₁ e m' he
  refine ⟨fun s hs => ?_, hrest⟩
  obtain ⟨es', hcourse', hes'⟩ := hread s hs
  exact ⟨es ++ es', hcourse.trans hcourse',
    List.forall_mem_append.mpr ⟨fun ev hev => .inl (hes ev hev), hes'⟩⟩

theorem Spec.prepares {f : α → Eng Effect} (h : Spec expanding False act Q)
    (hf : ∀ a, Prepares global (f a)) : Prepares global (act >>= f) :=
  h.quiet.prepares hf

/-- The place of the effects is assigned to in front of the rest, in the same scope. -/
theorem Prepares.of_assign {s₀ : Setting Meaning} {f : Eng Effect} (hf : Prepares global f)
    (hplace : Gives f fun e => ∀ s ∈ e.setting, s.place = s₀.place) :
    Prepares global (do assign s₀.assignment global; f) := by
  intro m e m' he
  obtain ⟨⟨⟩, m₁, hassign, he⟩ := exists_of_bind_eq_ok he
  obtain ⟨-, rfl⟩ := EStateM.Result.ok.inj hassign
  obtain ⟨hread, hrest⟩ := hf _ e m' he
  refine ⟨fun s hs => ?_, hrest⟩
  obtain ⟨es, hcourse, hes⟩ := hread s hs
  refine ⟨_, (Env.Course.of_assign m.env s₀.assignment global).trans hcourse, ?_⟩
  -- Only the effect, which is known at the end, tells that the place is the same.
  have hsame : s₀.assignment.place = s.place := by
    rw [s₀.place_assignment, hplace _ e m' he s hs]
  rw [List.forall_mem_append, List.forall_mem_singleton, hsame]
  exact ⟨.inr rfl, hes⟩

end Eng

namespace Cell

/-- Everything has been read when the effect of writing into a cell is made. -/
theorem effect_prepares (cell : Cell) (v : Value) (global : Bool) :
    Prepares global (cell.effect v) := by
  unfold Cell.effect
  split
  · exact .set _
  · exact .set _
  · exact .set _
  · exact .set _
  · dsimp only
    split
    · exact .set _
    · exact .throw _
  · dsimp only
    split
    · exact .throw _
    · exact .set _
  · exact .none _
  · exact .none _

end Cell

namespace Expander

variable {x : Expander} {global : Bool}

/-- Taking a box out of its register is a local assignment. -/
theorem takeBox_quiet (n : Int64) (keep : Bool) : Quiet (takeBox n keep) := by
  intro m b m' hb
  rw [takeBox_apply] at hb
  obtain ⟨-, rfl⟩ := EStateM.Result.ok.inj hb
  obtain ⟨es, hcourse, hes⟩ := m.env.course_fetchBox (Count.text n) keep
  refine ⟨es, hcourse, fun e he => ?_⟩
  obtain rfl := hes e he
  exact .box _

theorem readCopy_prepares : Prepares global x.readCopy :=
  scanDefinedToken_spec.prepares fun _ => scanLetToken_spec.prepares fun _ =>
    (tokenMeaning_spec fun h => h.elim).prepares fun _ => .set _

theorem readCopyNext_prepares : Prepares global x.readCopyNext := by
  refine scanDefinedToken_spec.prepares fun t => rawToken_spec.prepares fun first? => ?_
  refine (expect_spec first? _ _ fun h => h.elim).prepares (Q := fun _ => True) fun first => ?_
  refine rawToken_spec.prepares fun second? => ?_
  refine (expect_spec second? _ _ fun h => h.elim).prepares (Q := fun _ => True) fun second => ?_
  refine (push_spec fun h => h.elim).prepares fun _ => ?_
  exact (tokenMeaning_spec fun h => h.elim).prepares fun _ => .set _

section Expanding

variable (hx : x.Disciplined)

include hx

theorem readQuantity_prepares (μ : Meaning) : Prepares global (x.readQuantity μ) :=
  (resolveMutable_spec hx fun h => h.elim).prepares fun cell =>
    (scanOptionalEquals_spec hx).prepares fun _ => (scanValue_spec hx cell.kind).prepares
      fun v => cell.effect_prepares v global

theorem readArithmetic_prepares (op : ArithOp) : Prepares global (x.readArithmetic op) := by
  refine (nextNonSpace?_spec hx).prepares fun t? => ?_
  refine (expect_spec t? _ _ fun h => h.elim).prepares (Q := fun _ => True) fun t => ?_
  refine (quantity?_spec t).prepares fun q => ?_
  split
  · exact .throw _
  · refine (resolveMutable_spec hx fun h => h.elim).prepares fun cell => ?_
    refine (scanKeyword_spec hx _).prepares fun _ => ?_
    refine (Cell.read_spec fun h => h.elim).prepares fun v => ?_
    extract_lets finish
    -- All that comes in front of the effect only reads.
    have hfinish : ∀ r, Prepares global (finish r) := fun r => cell.effect_prepares r global
    have hobserve : ∀ fits, Spec expanding False (observe fits) fun _ => True :=
      fun fits => observe_spec fun h => h.elim
    have harith : ∀ r : Except ArithFault Value, Spec expanding False (arith r) fun _ => True :=
      fun r => arith_spec fun h => h.elim
    cases op with
    | advance =>
      exact (scanValue_spec hx cell.kind).prepares fun w => (hobserve _).prepares fun _ =>
        (harith _).prepares hfinish
    | multiply =>
      exact (scanInteger_spec hx).prepares fun n => (hobserve _).prepares fun _ =>
        (harith _).prepares hfinish
    | divide =>
      exact (scanInteger_spec hx).prepares fun n => (hobserve _).prepares fun _ =>
        (harith _).prepares hfinish

theorem readMacro_prepares (expand : Bool) : Prepares global (x.readMacro expand) :=
  get_spec.prepares fun _ => scanDefinedToken_spec.prepares fun _ =>
    (scanDefinition_spec hx _ _).prepares fun _ => .set _

/-- The name that is being defined is assigned to twice, in one scope. -/
theorem readName_prepares {read : Token → Eng Meaning} (hread : ∀ t, Quiet (read t)) :
    Prepares global (x.readName read global) := by
  refine scanDefinedToken_spec.prepares fun t => ?_
  have hrest : Prepares global (do
      x.scanOptionalEquals
      return .set (t.binding (some (← read t))) : Eng Effect) :=
    (scanOptionalEquals_spec hx).prepares fun _ => (hread t).prepares fun _ => .set _
  rw [bind_eq_perform, Effect.perform_set]
  refine hrest.of_assign (.bind fun _ => .bind fun μ => .pure fun s hs => ?_)
  obtain rfl := Option.mem_some.mp hs
  exact t.place_binding _ _

theorem scanFontDefinition_quiet (command t : Token) : Quiet (x.scanFontDefinition command t) := by
  refine (scanFileName_spec hx).quiet.bind fun name => ?_
  extract_lets finish
  have hfinish : ∀ u, Quiet (finish u) := by
    refine fun u => (scanFontSize_spec hx).quiet.bind fun size => ?_
    refine (observe_spec fun h => h.elim).quiet.bind fun _ => env_spec.quiet.bind fun env => ?_
    intro m μ m' hμ
    obtain ⟨-, rfl⟩ := EStateM.Result.ok.inj hμ
    exact ⟨[], .of_sameScopes ⟨rfl, rfl, rfl⟩, List.forall_mem_nil _⟩
  split
  · exact (failAt_spec (Q := fun _ => True) ..).quiet.bind hfinish
  · exact hfinish ()

theorem readBox_prepares : Prepares global (x.readBox global) := by
  refine (scanRegisterNumber_spec hx).prepares fun n => ?_
  refine (scanOptionalEquals_spec hx).prepares fun _ => ?_
  refine (nextNonRelax?_spec hx).prepares fun t? => ?_
  refine (expect_spec t? _ _ fun h => h.elim).prepares (Q := fun _ => True) fun t => ?_
  have hbox : ∀ μ?, Prepares global (x.boxEffect (Count.text n) global t μ?) := by
    intro μ?
    unfold boxEffect
    split
    · exact .none _
    · exact (scanRegisterNumber_spec hx).prepares fun k => (takeBox_quiet k _).prepares
        fun _ => .set _
    · exact (push_spec fun h => h.elim).prepares fun _ => .throw _
  split
  · exact (meaning?_spec t).prepares hbox
  · exact hbox none

/-- The space that is skipped behind a direction is looked for by expansion. -/
theorem readDirection_prepares (command : Token) : Prepares global (x.readDirection command) := by
  refine (scanDirection_spec hx command _).prepares fun d => ?_
  intro m e m' he
  obtain ⟨rfl, rfl⟩ := EStateM.Result.ok.inj he
  refine ⟨fun s hs => ⟨[], .refl, List.forall_mem_nil _⟩, fun s hs m m' hrest => ?_⟩
  obtain rfl := Option.mem_some.mp hs
  obtain ⟨es, hcourse, hes⟩ := (skipOptionalSpace_spec hx).course hrest
  refine ⟨es, hcourse, fun ev hev => ?_⟩
  obtain ⟨name, rfl⟩ := hes ev hev
  refine ⟨.code name, fun q global hq => ?_⟩
  obtain ⟨rfl, -⟩ := ScopeEvent.assigned.inj (List.mem_singleton.mp hq)
  exact nofun

theorem readAssigner_prepares (a : Assigner) (t : Token) :
    Prepares global (x.readAssigner a t global) := by
  cases a with
  | arithmetic op => exact readArithmetic_prepares hx op
  | define alwaysGlobal expand => exact readMacro_prepares hx expand
  | copyMeaning => exact readCopy_prepares
  | copyNextMeaning => exact readCopyNext_prepares
  | charDef =>
    exact readName_prepares hx fun _ =>
      (Spec.map (R := fun _ => True) (scanCharCode_spec hx) fun _ _ => True.intro).quiet
  | registerDef bank =>
    exact readName_prepares hx fun _ =>
      (Spec.map (R := fun _ => True) (scanRegisterNumber_spec hx) fun _ _ => True.intro).quiet
  | setBox => exact readBox_prepares hx
  | font => exact readName_prepares hx (scanFontDefinition_quiet hx t)
  | color => exact (scanColor_spec hx t).prepares fun _ => .set _
  | textDirection => exact readDirection_prepares hx t

/-- All assignments read what they need like this. -/
theorem read_prepares (μ : Meaning) (t : Token) : Prepares global (x.read μ t global) := by
  unfold read
  split
  · exact readAssigner_prepares hx _ t
  · exact .set _
  · exact readQuantity_prepares hx μ

end Expanding

end Expander

end TexEngine
