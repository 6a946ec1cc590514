/-
  TexEngine.Proofs.Engine.History.Execute

  Everything that an engine does has a history, whether it succeeds or fails: execution
  consists of the changes of `Machine.Change` and of nothing else, and so does a whole
  job.  Its environment has a course: nothing changes what can be looked up except
  assignments and the ends of groups.  On the conditional stack, no test is left pending.
-/
import TexEngine.Proofs.Engine.History.Change
import TexEngine.Proofs.Engine.Jobs
import TexEngine.Proofs.Engine.Settling
import TexEngine.Proofs.Env.Course

namespace TexEngine

/-! ## Courses of changes -/

namespace Env

/-- Relaxing is a course of local assignments to control sequences. -/
theorem Relaxes.course {env env' : Env Meaning} {names : List String} (h : env.Relaxes names env') :
    ∃ es, env.Course es env' ∧ ∀ e ∈ es, ∃ name, e = .assigned (.code name) false := by
  induction h with
  | refl => exact ⟨[], .refl, List.forall_mem_nil _⟩
  | @relax names env' name h hname ih =>
    obtain ⟨es, hcourse, hes⟩ := ih
    refine ⟨_, hcourse.assign (.code name (some Meaning.relax)) false, ?_⟩
    rw [List.forall_mem_append, List.forall_mem_singleton]
    exact ⟨hes, name, rfl⟩
  | conditionals h cs ih =>
    obtain ⟨es, hcourse, hes⟩ := ih
    exact ⟨es, hcourse.rest ⟨rfl, rfl, rfl⟩, hes⟩

theorem sameScopes_afterGroup (env : Env Meaning) (t : Token) :
    env.SameScopes (env.afterGroup t) := by
  unfold afterGroup
  cases hgroups : env.groups with
  | nil => exact ⟨rfl, rfl, rfl⟩
  | cons g gs =>
    refine ⟨rfl, rfl, ?_⟩
    rw [hgroups]
    rfl

theorem course_fetchBox (env : Env Meaning) (name : String) (keep : Bool) :
    ∃ es, env.Course es (env.fetchBox name keep) ∧
      ∀ e ∈ es, e = .assigned (.box name) false := by
  unfold fetchBox
  split
  · exact ⟨_, .of_assign env (.box name (some none)) false, by simp [Assignment.place]⟩
  · exact ⟨[], .refl, List.forall_mem_nil _⟩

end Env

/-! ## How the environment goes on -/

/-- Places are assigned to, groups begin and end, and no test is left pending that was not
    pending before. -/
structure Env.Proceeds (env env' : Env Meaning) : Prop where
  course : ∃ es, env.Course es env'
  pending : AddsNoPending env.conditionals env'.conditionals

namespace Env.Proceeds

variable {env env' env'' : Env Meaning}

/-- Where the conditional stack stays as it is. -/
theorem of_course {es : List ScopeEvent} (h : env.Course es env')
    (hsame : env'.conditionals = env.conditionals) : env.Proceeds env' :=
  ⟨⟨es, h⟩, .of_eq hsame⟩

theorem refl (env : Env Meaning) : env.Proceeds env :=
  of_course .refl rfl

theorem trans (h : env.Proceeds env') (h' : env'.Proceeds env'') : env.Proceeds env'' := by
  obtain ⟨es, hcourse⟩ := h.course
  obtain ⟨es', hcourse'⟩ := h'.course
  exact ⟨⟨_, hcourse.trans hcourse'⟩, h.pending.trans h'.pending⟩

theorem assign (env : Env Meaning) (a : Assignment Meaning) (global : Bool) :
    env.Proceeds (env.assign a global) :=
  of_course (.of_assign env a global) (conditionals_assign env a global)

theorem fetchBox (env : Env Meaning) (name : String) (keep : Bool) :
    env.Proceeds (env.fetchBox name keep) := by
  unfold Env.fetchBox
  split
  · exact assign ..
  · exact refl env

theorem receive (env : Env Meaning) (b : Box) (deliver : Option Delivery) :
    env.Proceeds (env.receive b deliver) := by
  unfold Env.receive
  split
  · exact assign ..
  · exact refl env

/-- The end of a group, before a box is delivered. -/
theorem unwound {g : Group Meaning} {gs : List (Group Meaning)} (hgroups : env.groups = g :: gs) :
    env.Proceeds (env.unwound g gs) :=
  of_course (.closeGroup .refl hgroups) (conditionals_restore env g.undo)

end Env.Proceeds

/-- The discipline of everything that the engine does: the state behind an operation is
    reached by changes, and its environment proceeds. -/
def Discipline.recording : Discipline where
  rel := fun m m' => (∃ steps, m.History steps m') ∧ m.env.Proceeds m'.env
  refl := fun m => ⟨⟨[], .refl⟩, .refl m.env⟩
  trans := fun ⟨⟨_, h⟩, henv⟩ ⟨⟨_, h'⟩, henv'⟩ => ⟨⟨_, h.trans h'⟩, henv.trans henv'⟩
  good := fun _ => True
  good_of_rel := fun _ _ => True.intro
  inv := fun _ => True

namespace Eng

open Discipline

variable {α β : Type} {act : Eng α} {Q : α → Prop}

/-- The operation has a history, whatever the state is. -/
abbrev Recorded (act : Eng α) : Prop :=
  Spec recording True act fun _ => True

theorem recorded_of_rel (h : ∀ m, recording.rel m (act.after m)) : Recorded act :=
  .of_rel_after (fun _ => True.intro) h

theorem Recorded.history (h : Recorded act) (m : Machine) :
    ∃ steps, m.History steps (act.after m) :=
  (h.rel_after m).1

theorem Recorded.course (h : Recorded act) (m : Machine) :
    ∃ es, m.env.Course es (act.after m).env :=
  (h.rel_after m).2.course

theorem Recorded.pending (h : Recorded act) (m : Machine) :
    AddsNoPending m.env.conditionals (act.after m).env.conditionals :=
  (h.rel_after m).2.pending

/-- Expansion is one change. -/
theorem Spec.recorded (h : Spec settling False act Q) : Recorded act := by
  refine recorded_of_rel fun m => ?_
  obtain ⟨hexpands, hpending⟩ : m.Expands (act.after m) ∧ _ := h.rel_after m
  obtain ⟨names, henv⟩ := hexpands.env
  obtain ⟨es, hcourse, -⟩ := henv.course
  exact ⟨⟨_, .of_change (.expand hexpands)⟩, ⟨es, hcourse⟩, hpending⟩

theorem recorded_of_change (h : ∀ m : Machine, ∃ events, m.Change events (act.after m) ∧
    m.env.Proceeds (act.after m).env) : Recorded act :=
  recorded_of_rel fun m =>
    let ⟨_, hchange, henv⟩ := h m
    ⟨⟨_, .of_change hchange⟩, henv⟩

/-- What begins with a change is recorded if the rest is. -/
theorem recorded_of_first (h : ∀ m : Machine, ∃ events m' rest, m.Change events m' ∧
    m.env.Proceeds m'.env ∧ act m = rest m' ∧ Recorded (rest : Eng α)) : Recorded act := by
  refine recorded_of_rel fun m => ?_
  obtain ⟨events, m', rest, hchange, henv, hact, hrest⟩ := h m
  have hafter : act.after m = rest.after m' := by
    unfold after
    rw [hact]
  rw [hafter]
  exact recording.trans ⟨⟨_, .of_change hchange⟩, henv⟩ (hrest.rel_after m')

/-- All results of the operation have a property. -/
def Gives (act : Eng α) (Q : α → Prop) : Prop :=
  ∀ m a m', act m = .ok a m' → Q a

theorem Gives.pure {a : α} (h : Q a) : Gives (Pure.pure a : Eng α) Q := by
  intro m b m' hb
  injection hb with hb
  exact hb ▸ h

/-- The results of a sequence are those of its last part. -/
theorem Gives.bind {f : β → Eng α} (h : ∀ b, Gives (f b) Q) {act : Eng β} :
    Gives (act >>= f) Q := by
  intro m a m' ha
  obtain ⟨b, m'', -, hb⟩ := exists_of_bind_eq_ok ha
  exact h b m'' a m' hb

/-- Where the rest is recorded for the results that there can be. -/
theorem Spec.bind_of_gives {f : α → Eng β} (h : Recorded act) (hgives : Gives act Q)
    (hf : ∀ a, Q a → Recorded (f a)) : Recorded (act >>= f) := by
  refine recorded_of_rel fun m => ?_
  have hm := h.rel_after m
  unfold after at hm ⊢
  cases hact : act m with
  | error e m' =>
    rw [bind_of_error hact]
    rw [hact] at hm
    exact hm
  | ok a m' =>
    rw [bind_of_ok hact]
    rw [hact] at hm
    exact recording.trans hm ((hf a (hgives m a m' hact)).rel_after m')

/-! ## Basic operations -/

theorem get_recorded : Recorded (get : Eng Machine) :=
  Spec.get

theorem env_recorded : Recorded env :=
  get_recorded.seq fun _ => .done

/-- A change that does not concern the contents. -/
theorem modify_recorded {g : Machine → Machine} (henv : ∀ m, (g m).env = m.env)
    (hpage : ∀ m, (g m).page = m.page) (hlog : ∀ m, (g m).boxLog = m.boxLog) :
    Recorded (modify g) := by
  refine recorded_of_change fun m => ⟨[], .rest (.of_eq (henv m) (hpage m) (hlog m)), ?_⟩
  have hafter : (Eng.after (modify g) m).env = m.env := henv m
  rw [hafter]
  exact .refl m.env

/-- A change of the fonts, or of the token for the end of an assignment. -/
theorem modifyEnv_recorded {f : Env Meaning → Env Meaning}
    (h : ∀ env, ∃ fonts afterAssignment, f env = { env with fonts, afterAssignment }) :
    Recorded (modifyEnv f) := by
  refine recorded_of_change fun m => ?_
  obtain ⟨fonts, afterAssignment, henv⟩ := h m.env
  have hafter : (modifyEnv f).after m = { m with env := { m.env with fonts, afterAssignment } } :=
    henv ▸ rfl
  rw [hafter]
  exact ⟨[], .rest ⟨rfl, rfl, rfl, rfl, rfl, rfl⟩, .of_course (.of_sameScopes ⟨rfl, rfl, rfl⟩) rfl⟩

theorem push_recorded (ts : TokenList) : Recorded (push ts) :=
  modify_recorded (fun _ => rfl) (fun _ => rfl) fun _ => rfl

theorem pushText_recorded (text name : String) : Recorded (pushText text name) := by
  have hsame : ∀ m, ((pushText text name).after m).env = m.env := by
    intro m
    obtain ⟨es, hpush⟩ := pushText_apply text name m
    rw [after_of_ok hpush]
    rfl
  exact Spec.recorded (Q := fun _ => True) ((pushText_spec text name).of_after fun m =>
    ⟨(pushText_spec (P := True) text name).rel_after m, .of_eq (by rw [hsame])⟩)

/-- An assignment that concerns no box and brings no meaning. -/
theorem assign_recorded {a : Assignment Meaning} (hbox : a.isBox = false)
    (hmeaning : a.meaning? = none) (global : Bool) : Recorded (assign a global) :=
  recorded_of_change fun m => ⟨[], .assign a global hbox (by simp [hmeaning]),
    .assign m.env a global⟩

theorem typeset_recorded {n : Node} (hbox : n.isBox = false) : Recorded (typeset n) :=
  recorded_of_change fun m => ⟨_, .typeset n hbox, .refl m.env⟩

theorem forM_trace_recorded (texts : List String) :
    Recorded (texts.forM fun text => trace .info .environment fun _ => text) :=
  (Expander.forM_trace_spec texts).recorded

end Eng

theorem Cell.write_recorded (cell : Cell) (v : Value) (global : Bool) :
    Eng.Recorded (cell.write v global) := by
  unfold Cell.write
  split
  · exact Eng.assign_recorded rfl rfl global
  · exact Eng.assign_recorded rfl rfl global
  · exact Eng.assign_recorded rfl rfl global
  · exact Eng.assign_recorded rfl rfl global
  · dsimp only
    split
    · exact Eng.assign_recorded rfl rfl global
    · exact Eng.fail_spec ..
  · dsimp only
    split
    · exact Eng.fail_spec ..
    · exact Eng.assign_recorded rfl rfl global
  · exact Eng.modifyEnv_recorded fun _ => ⟨_, _, rfl⟩
  · exact .done

namespace Expander

open Eng Discipline

variable {x : Expander}

/-! ## Meanings -/

theorem setMeaning_eq_assign (env : Env Meaning) (t : Token) (μ? : Option Meaning)
    (global : Bool) : ∃ a, env.setMeaning t μ? global = env.assign a global ∧ a.isBox = false ∧
      a.meaning? = μ? := by
  unfold Env.setMeaning
  refine ⟨_, rfl, ?_⟩
  split
  · exact ⟨rfl, rfl⟩
  · exact ⟨rfl, rfl⟩

/-- Binding a meaning that is made, or that something else has. -/
theorem change_setMeaning {m : Machine} (t : Token) {μ? : Option Meaning} (global : Bool)
    (hmeaning : ∀ μ ∈ μ?, m.env.Binds μ ∨ μ.IsMade) :
    ∃ events, m.Change events { m with env := m.env.setMeaning t μ? global } ∧
      m.env.Proceeds (m.env.setMeaning t μ? global) := by
  obtain ⟨a, henv, hbox, hμ⟩ := setMeaning_eq_assign m.env t μ? global
  rw [henv]
  exact ⟨[], .assign a global hbox (hμ ▸ hmeaning), .assign m.env a global⟩

theorem bind_recorded (t : Token) {μ : Meaning} (hmade : μ.IsMade) (global : Bool) :
    Recorded (bind t (some μ) global) :=
  recorded_of_change fun _ =>
    change_setMeaning t global fun _ hμ => .inr (Option.mem_some.mp hμ ▸ hmade)

/-- What a token means is the meaning of something, unless it is made for the token. -/
theorem binds_or_isMade {env : Env Meaning} {t : Token} {μ : Meaning}
    (h : meaningIn env t = some μ) : env.Binds μ ∨ μ.IsMade := by
  unfold meaningIn at h
  split at h
  · injection h with h
    exact .inr (h ▸ rfl)
  · unfold Env.meaning? at h
    split at h
    · exact .inl (.inl ⟨_, h⟩)
    · split at h
      · exact .inl (.inr ⟨_, h⟩)
      · contradiction

/-- Copying the meaning of a token. -/
theorem bindMeaning_recorded (t source : Token) (global : Bool) :
    Recorded (do bind t (← tokenMeaning source) global) := by
  refine recorded_of_change fun m => ?_
  by_cases hcommand : source.isCommand
  · have hread : tokenMeaning source m = .ok (meaningIn m.env source) m := by
      rw [tokenMeaning, if_pos hcommand, meaning?_apply]
    have hafter : Eng.after (do bind t (← tokenMeaning source) global) m =
        { m with env := m.env.setMeaning t (meaningIn m.env source) global } := by
      unfold after
      rw [bind_of_ok hread]
      rfl
    rw [hafter]
    exact change_setMeaning t global fun μ hμ => binds_or_isMade hμ
  · have hread : tokenMeaning source m = .ok (some (.charToken source)) m := by
      rw [tokenMeaning, if_neg hcommand]
      rfl
    have hafter : Eng.after (do bind t (← tokenMeaning source) global) m =
        { m with env := m.env.setMeaning t (some (.charToken source)) global } := by
      unfold after
      rw [bind_of_ok hread]
      rfl
    rw [hafter]
    exact change_setMeaning t global fun μ hμ => .inr (Option.mem_some.mp hμ ▸ True.intro)

/-! ## Groups and boxes -/

theorem openGroup_recorded (type : GroupType) (start : Token) (htype : type.isBox = false) :
    Recorded (openGroup type start none) :=
  recorded_of_first fun m => ⟨[], _, _, .openGroup type m.input.locator start htype,
    .of_course (.openGroup .refl type m.input.locator start none) rfl, rfl,
    forM_trace_recorded _⟩

/-- The box and the group of its contents begin together. -/
theorem openBox_recorded (kind : BoxKind) (spec : BoxSpec) (start : Token) (deliver : Delivery) :
    Recorded (do
      modify fun m => { m with page := m.page.openBox kind spec }.logBoxes [.opened kind spec]
      openGroup kind.groupType start (some deliver)) :=
  recorded_of_first fun m => ⟨_, _, _, .openBox kind spec m.input.locator start deliver,
    .of_course (.openGroup .refl kind.groupType m.input.locator start (some deliver)) rfl, rfl,
    forM_trace_recorded _⟩

theorem closeGroup_recorded : Recorded closeGroup := by
  refine recorded_of_first fun m => ?_
  have hget : (get : Eng Machine) m = .ok m m := rfl
  unfold closeGroup
  rw [bind_of_ok hget]
  cases hclose : m.env.closeGroup Meaning.name (some m.page) with
  | error f => exact ⟨[], m, throw f, .rest (.of_eq rfl rfl rfl), .refl m.env, rfl, .throw f⟩
  | ok c =>
    obtain ⟨g, gs, b, r, hgroups, hbox⟩ := Env.exists_finishBox?_eq_some hclose
    obtain ⟨henv, -⟩ := Env.closeGroup_eq_receive hgroups hbox hclose
    have hproceeds : m.env.Proceeds c.env :=
      henv ▸ (Env.Proceeds.unwound hgroups).trans (.receive _ b g.deliver)
    have hset : ∀ m' : Machine, (set m' : Eng Unit) m = .ok () m' := fun _ => rfl
    dsimp only
    rw [bind_of_ok (hset _), Machine.closing_eq hgroups hbox]
    refine ⟨_, _, _, .closeGroup hgroups hbox hclose, hproceeds, rfl, ?_⟩
    exact (forM_trace_recorded _).seq fun _ => push_recorded _

/-- Fetching the contents of a box register does not fail. -/
theorem takeBox_apply (n : Int64) (keep : Bool) (m : Machine) :
    takeBox n keep m = .ok (m.env.box (Count.text n))
      ({ m with env := m.env.fetchBox (Count.text n) keep }.logBoxes
        (BoxEvent.fetch m.env (Count.text n) keep)) := by
  have henv : env m = .ok m.env m := rfl
  have hlog : ∀ events, logBoxes events m = .ok () (m.logBoxes events) := fun _ => rfl
  unfold takeBox
  dsimp only
  rw [bind_of_ok henv, bind_of_ok (hlog _)]
  unfold Env.fetchBox
  split <;> rfl

/-- The contents of a register go to the typesetter. -/
theorem useBox_recorded (n : Int64) (keep : Bool) : Recorded (do
    match ← takeBox n keep with
    | some b =>
      logBoxes [.used b]
      typeset (Box.node? (some b))
    | none => pure ()) := by
  refine recorded_of_change fun m => ?_
  unfold after
  rw [bind_of_ok (takeBox_apply n keep m)]
  cases hbox : m.env.box (Count.text n) with
  | some b =>
    have huse := Machine.Change.useBox (Count.text n) keep hbox
    rw [Machine.logBoxes, List.reverse_append, List.append_assoc] at huse
    exact ⟨_, huse, .fetchBox ..⟩
  | none =>
    have hsame : m.env.fetchBox (Count.text n) keep = m.env := by
      rw [Env.fetchBox, hbox]
      rfl
    have hnothing : BoxEvent.fetch m.env (Count.text n) keep = [] := by
      rw [BoxEvent.fetch, hbox]
    rw [hnothing]
    exact ⟨[], .rest (.of_eq hsame rfl rfl), .fetchBox ..⟩

/-- The contents of a register go to another register. -/
theorem moveBox_recorded (n : Int64) (keep : Bool) (target : String) (global : Bool) :
    Recorded (do
      let b ← takeBox n keep
      assign (.box target (some b)) global) := by
  refine recorded_of_change fun m => ?_
  unfold after
  rw [bind_of_ok (takeBox_apply n keep m)]
  have hproceeds := (Env.Proceeds.fetchBox m.env (Count.text n) keep).trans
    (.assign _ (.box target (some (m.env.box (Count.text n)))) global)
  exact ⟨_, .moveBox (Count.text n) keep target global, hproceeds⟩

theorem addChar_recorded (c : CharCode) : Recorded (addChar c) :=
  env_recorded.seq fun _ => typeset_recorded rfl

theorem addFontSpace_recorded : Recorded addFontSpace :=
  env_recorded.seq fun _ => typeset_recorded rfl

theorem addSpace_recorded : Recorded addSpace := by
  refine env_recorded.seq fun env => ?_
  dsimp only
  split
  · exact addFontSpace_recorded
  · exact typeset_recorded rfl

theorem closeBrace_recorded (t : Token) : Recorded (closeBrace t) := by
  refine env_recorded.seq fun env => ?_
  split
  · exact failAt_spec ..
  · split
    · exact failAt_spec ..
    · exact closeGroup_recorded

theorem closeSemiSimple_recorded (t : Token) : Recorded (closeSemiSimple t) := by
  refine env_recorded.seq fun env => ?_
  split
  · exact failAt_spec ..
  · split
    · exact closeGroup_recorded
    · exact failAt_spec ..

theorem executeChar_recorded (t : Token) : Recorded (executeChar t) := by
  unfold executeChar
  split
  · exact openGroup_recorded .simple t rfl
  · exact closeBrace_recorded t
  · exact addSpace_recorded
  · exact failAt_spec ..
  · exact failAt_spec ..
  · exact addChar_recorded _

theorem storeFormat_recorded : Recorded storeFormat := by
  refine dump_spec.recorded.seq fun img => get_recorded.seq fun m => ?_
  split
  · exact .throw _
  · refine Spec.seq (modify_recorded (fun _ => rfl) (fun _ => rfl) fun _ => rfl) fun _ => ?_
    refine (emit_spec _).recorded.seq fun _ => ?_
    exact modify_recorded (fun _ => rfl) (fun _ => rfl) fun _ => rfl

/-- Whatever comes of a command, no modifier is left behind it. -/
theorem after_execute (x : Expander) (t : Token) (m : Machine) :
    (x.execute t).after m = { (iterate x.round x.fuel t).after m with modifiers := {} } := by
  unfold execute after
  dsimp only
  cases iterate x.round x.fuel t m <;> rfl

/-! ## Assignments -/

theorem assigning_recorded {act : Bool → Eng Unit} (hact : ∀ global, Recorded (act global)) :
    Recorded (assigning act) := by
  refine get_recorded.seq fun m => (hact _).seq fun _ => env_recorded.seq fun env => ?_
  split
  · refine Spec.seq (modifyEnv_recorded fun _ => ⟨_, _, rfl⟩) fun _ => ?_
    exact push_recorded _
  · exact .done

theorem assignCopy_recorded (global : Bool) : Recorded (x.assignCopy global) :=
  scanDefinedToken_spec.recorded.seq fun t => scanLetToken_spec.recorded.seq fun source =>
    bindMeaning_recorded t source global

theorem assignCopyNext_recorded (global : Bool) : Recorded (x.assignCopyNext global) := by
  refine scanDefinedToken_spec.recorded.seq fun t => ?_
  refine Spec.seq rawToken_spec.recorded fun first? => ?_
  refine Spec.seq (expect_spec first? _ _ fun _ _ _ => True.intro) fun first => ?_
  refine Spec.seq rawToken_spec.recorded fun second? => ?_
  refine Spec.seq (expect_spec second? _ _ fun _ _ _ => True.intro) fun second => ?_
  exact (push_recorded _).seq fun _ => bindMeaning_recorded t second global

section Expanding

variable (hx : x.KeepsTo settling)

include hx

theorem resolveMutable_recorded (μ : Meaning) : Recorded (x.resolveMutable μ) :=
  (resolveMutable_spec hx fun h => h.elim).recorded

theorem assignQuantity_recorded (μ : Meaning) : Recorded (x.assignQuantity μ) :=
  assigning_recorded fun global => (resolveMutable_recorded hx μ).seq fun cell =>
    (scanOptionalEquals_spec hx).recorded.seq fun _ => (scanValue_spec hx cell.kind).recorded.seq
      fun v => cell.write_recorded v global

theorem assignArithmetic_recorded (op : ArithOp) (global : Bool) :
    Recorded (x.assignArithmetic op global) := by
  refine (nextNonSpace?_spec hx).recorded.seq fun t? => ?_
  refine Spec.seq (expect_spec t? _ _ fun _ _ _ => True.intro) fun t => ?_
  refine (quantity?_spec t).recorded.seq fun q => ?_
  split
  · exact failAt_spec ..
  · refine (resolveMutable_recorded hx _).seq fun cell => ?_
    refine (scanKeyword_spec hx _).recorded.seq fun _ => ?_
    refine (Cell.read_spec fun h => h.elim).recorded.seq fun v => ?_
    extract_lets finish
    -- The only step that is recorded is the write at the end; scanning and arithmetic take none.
    have hfinish : ∀ r, Recorded (finish r) := fun r => cell.write_recorded r global
    have hobserve : ∀ fits, Recorded (observe fits) :=
      fun fits => (observe_spec fun h => h.elim).recorded
    have harith : ∀ r : Except ArithFault Value, Recorded (arith r) :=
      fun r => arith_spec fun _ _ _ => True.intro
    cases op with
    | advance =>
      exact (scanValue_spec hx cell.kind).recorded.seq fun w => (hobserve _).seq fun _ =>
        (harith _).seq hfinish
    | multiply =>
      exact (scanInteger_spec hx).recorded.seq fun n => (hobserve _).seq fun _ =>
        (harith _).seq hfinish
    | divide =>
      exact (scanInteger_spec hx).recorded.seq fun n => (hobserve _).seq fun _ =>
        (harith _).seq hfinish

theorem assignMacro_recorded (alwaysGlobal expand global : Bool) :
    Recorded (x.assignMacro alwaysGlobal expand global) := by
  have hmade : ∀ d, (Meaning.defined d).IsMade := fun _ => True.intro
  exact get_recorded.seq fun _ => scanDefinedToken_spec.recorded.seq fun t =>
    (scanDefinition_spec hx _ _).recorded.seq fun d => bind_recorded t (hmade _) _

/-- A name is defined for what `read` gives, which is no primitive. -/
theorem assignName_recorded {read : Token → Eng Meaning} (hread : ∀ t, Recorded (read t))
    (hmade : ∀ t, Gives (read t) Meaning.IsMade) (global : Bool) :
    Recorded (x.assignName read global) := by
  have hrelax : Meaning.relax.IsMade := rfl
  refine scanDefinedToken_spec.recorded.seq fun t =>
    (bind_recorded t hrelax global).seq fun _ => ?_
  refine (scanOptionalEquals_spec hx).recorded.seq fun _ => ?_
  exact (hread t).bind_of_gives (hmade t) fun μ hμ => bind_recorded t hμ global

theorem scanFontDefinition_recorded (command t : Token) :
    Recorded (x.scanFontDefinition command t) := by
  refine (scanFileName_spec hx).recorded.seq fun name => ?_
  extract_lets finish
  have hfinish : ∀ u, Recorded (finish u) := by
    refine fun u => (scanFontSize_spec hx).recorded.seq fun size => ?_
    refine Spec.seq (observe_spec fun h => h.elim).recorded fun _ => env_recorded.seq fun env => ?_
    refine Spec.seq (modifyEnv_recorded fun _ => ⟨_, _, rfl⟩) fun _ => ?_
    exact .done
  split
  · exact Spec.seq (Q := fun _ => True) (failAt_spec ..) hfinish
  · exact hfinish ()

omit hx in
theorem scanFontDefinition_gives (command t : Token) :
    Gives (x.scanFontDefinition command t) Meaning.IsMade := by
  refine .bind fun name => ?_
  extract_lets finish
  have hfinish : ∀ u, Gives (finish u) Meaning.IsMade :=
    fun u => .bind fun size => .bind fun _ => .bind fun env => .bind fun _ => .pure True.intro
  split
  · exact .bind hfinish
  · exact hfinish ()

theorem assignDirection_recorded (command : Token) (global : Bool) :
    Recorded (x.assignDirection command global) :=
  (scanDirection_spec hx command _).recorded.seq fun _ =>
    Spec.seq (assign_recorded rfl rfl global) fun _ => (skipOptionalSpace_spec hx).recorded

theorem beginBox_recorded (kind : BoxKind) (start : Token) (deliver : Delivery) :
    Recorded (x.beginBox kind start deliver) := by
  have hevery : ∀ (name : String), Recorded (do push ((← env).tokens name)) :=
    fun name => env_recorded.seq fun _ => push_recorded _
  refine (scanBoxSpec_spec hx).recorded.seq fun spec => ?_
  refine (scanLeftBrace_spec hx).recorded.seq fun _ => ?_
  cases kind with
  | horizontal =>
    have hbox := openBox_recorded .horizontal spec start deliver
    have hall := hbox.seq fun _ => hevery "everyhbox"
    rw [bind_assoc] at hall
    exact hall
  | vertical =>
    have hbox := openBox_recorded .vertical spec start deliver
    have hall := hbox.seq fun _ => hevery "everyvbox"
    rw [bind_assoc] at hall
    exact hall

theorem assignBox_recorded (global : Bool) : Recorded (x.assignBox global) := by
  refine (scanRegisterNumber_spec hx).recorded.seq fun n => ?_
  refine (scanOptionalEquals_spec hx).recorded.seq fun _ => ?_
  refine (nextNonRelax?_spec hx).recorded.seq fun t? => ?_
  refine Spec.seq (expect_spec t? _ _ fun _ _ _ => True.intro) fun t => ?_
  extract_lets finish
  have hfinish : ∀ μ?, Recorded (finish μ?) := by
    intro μ?
    dsimp only [finish]
    split
    · exact beginBox_recorded hx ..
    · exact (scanRegisterNumber_spec hx).recorded.seq fun k => moveBox_recorded k _ _ global
    · exact (push_recorded [t]).seq fun _ => failAt_spec ..
  split
  · exact (meaning?_spec t).recorded.seq hfinish
  · exact Spec.seq (Q := fun _ => True) .done hfinish

theorem performAssigner_recorded (a : Assigner) (t : Token) (global : Bool) :
    Recorded (x.performAssigner a t global) := by
  cases a with
  | arithmetic op => exact assignArithmetic_recorded hx op global
  | define alwaysGlobal expand => exact assignMacro_recorded hx alwaysGlobal expand global
  | copyMeaning => exact assignCopy_recorded global
  | copyNextMeaning => exact assignCopyNext_recorded global
  | charDef =>
    exact assignName_recorded hx
      (fun _ => .map (scanCharCode_spec hx).recorded fun _ _ => True.intro)
      (fun _ => .bind fun _ => .pure True.intro) global
  | registerDef bank =>
    exact assignName_recorded hx
      (fun _ => .map (scanRegisterNumber_spec hx).recorded fun _ _ => True.intro)
      (fun _ => .bind fun _ => .pure True.intro) global
  | setBox => exact assignBox_recorded hx global
  | font =>
    exact assignName_recorded hx (scanFontDefinition_recorded hx t) (scanFontDefinition_gives t)
      global
  | color => exact (scanColor_spec hx t).recorded.seq fun _ => assign_recorded rfl rfl global
  | textDirection => exact assignDirection_recorded hx t global

/-! ## Commands -/

theorem addBox_recorded (keep : Bool) : Recorded (x.addBox keep) :=
  (scanRegisterNumber_spec hx).recorded.seq fun n => useBox_recorded n keep

theorem changeCase_recorded (table : CodeTable) : Recorded (x.changeCase table) :=
  (scanLeftBrace_spec hx).recorded.seq fun _ => scanBalanced_spec.recorded.seq fun _ =>
    env_recorded.seq fun _ => push_recorded _

theorem executeCommand_recorded (c : Command) (t : Token) :
    Recorded (x.executeCommand c t) := by
  -- Reading arguments and reporting take no step; what is left of a command is one recorded
  -- operation.
  have hemit : ∀ e, Recorded (emit e) := fun e => (emit_spec e).recorded
  have hnext : ∀ {f : Token → Eng Unit}, (∀ t, Recorded (f t)) →
      Recorded (do f (← expect (← token?) .missingControlSequence [])) := fun hf =>
    Spec.seq token?_spec.recorded fun t? =>
      (expect_spec t? _ _ (T := fun _ => True) fun _ _ _ => True.intro).seq hf
  cases c with
  | endcsname => exact failAt_spec ..
  | begingroup => exact openGroup_recorded .semiSimple t rfl
  | endgroup => exact closeSemiSimple_recorded t
  | aftergroup =>
    exact hnext fun next => recorded_of_change fun m => ⟨[], .afterGroup next,
      .of_course (.of_sameScopes (m.env.sameScopes_afterGroup next))
        (m.env.conditionals_afterGroup next)⟩
  | afterassignment =>
    exact hnext fun next => modifyEnv_recorded fun _ => ⟨_, _, rfl⟩
  | makeBox kind => exact beginBox_recorded hx ..
  | useBox keep => exact addBox_recorded hx keep
  | controlSpace => exact addFontSpace_recorded
  | char => exact (scanCharCode_spec hx).recorded.seq fun _ => addChar_recorded _
  | skip vertical => exact (scanGlue_spec hx).recorded.seq fun _ => typeset_recorded rfl
  | kern => exact (scanDimen_spec hx).recorded.seq fun _ => typeset_recorded rfl
  | penalty => exact (scanInteger_spec hx).recorded.seq fun _ => typeset_recorded rfl
  | par => exact typeset_recorded rfl
  | relax => exact .done
  | ignorespaces =>
    refine (nextNonSpace?_spec hx).recorded.seq fun t? => ?_
    cases t? with
    | some t => exact push_recorded [t]
    | none => exact .done
  | changeCase upper => cases upper <;> exact changeCase_recorded hx _
  | endJob => exact modify_recorded (fun _ => rfl) (fun _ => rfl) fun _ => rfl
  | dump => exact storeFormat_recorded
  | message => exact (messageText_spec hx).recorded.seq fun _ => hemit _
  | showMeaning =>
    refine hnext fun next => (describe_spec next).recorded.seq fun text => ?_
    split
    · exact (showToken_spec next).recorded.seq fun _ => hemit _
    · exact hemit _
  | showValue => exact (theTokens_spec hx).recorded.seq fun _ => env_recorded.seq fun _ => hemit _
  | write =>
    exact (scanInteger_spec hx).recorded.seq fun _ => (messageText_spec hx).recorded.seq fun _ =>
      hemit _
  | errmessage => exact (messageText_spec hx).recorded.seq fun _ => fail_spec ..

/-! ## Tokens -/

theorem dispatch_recorded (t : Token) : Recorded (x.dispatch t) := by
  have hdone : ∀ (_ : Unit), Recorded (pure none : Eng (Option Token)) := fun _ => .done
  unfold dispatch
  refine get_recorded.seq fun m => ?_
  extract_lets modifiers executeChar' done
  split
  · have hchar : ∀ u, Recorded (executeChar' u) := fun _ => (executeChar_recorded t).seq hdone
    split
    · exact Spec.seq (Q := fun _ => True) (failAt_spec ..) hchar
    · exact hchar ()
  · refine (meaning?_spec t).recorded.seq fun μ? => ?_
    cases μ? with
    | none => exact (reportUndefined_spec t).recorded.seq hdone
    | some μ =>
      dsimp -zeta only
      extract_lets act accept
      -- `accept` traces the command if this is wanted, and `act` then does it.
      have hact : ∀ u, Recorded (act u) := by
        intro u
        cases μ with
        | modifier f =>
          refine Spec.seq (modify_recorded (fun _ => rfl) (fun _ => rfl) fun _ => rfl) fun _ => ?_
          refine (nextNonRelax?_spec hx).recorded.seq fun t? => ?_
          exact (expect_spec t? _ _ (T := fun _ => True) fun _ _ _ => True.intro).seq fun _ => .done
        | command c => exact (executeCommand_recorded hx c t).seq hdone
        | assigner a => exact (assigning_recorded (performAssigner_recorded hx a t)).seq hdone
        | quantity q => exact (assignQuantity_recorded hx _).seq hdone
        | register bank i => exact (assignQuantity_recorded hx _).seq hdone
        | charDef c => exact (addChar_recorded c).seq hdone
        | font f =>
          exact Spec.seq (assigning_recorded fun global => assign_recorded rfl rfl global) hdone
        | charToken c => exact (executeChar_recorded c).seq hdone
        | _ => exact Spec.seq (Q := fun _ => True) (failAt_spec ..) hdone
      have haccept : ∀ u, Recorded (accept u) := by
        refine fun _ => env_recorded.seq fun env => ?_
        split
        · exact (showToken_spec t).recorded.seq fun _ => (trace_spec ..).recorded.seq hact
        · exact hact ()
      split
      · exact Spec.seq (Q := fun _ => True) (failAt_spec ..) haccept
      · exact haccept ()

theorem execute_recorded (t : Token) : Recorded (x.execute t) := by
  refine recorded_of_rel fun m => ?_
  obtain ⟨⟨steps, hsteps⟩, henv⟩ :=
    (Spec.loop (spec_round (dispatch_recorded hx)) x.fuel t).rel_after m
  rw [after_execute]
  exact ⟨⟨_, hsteps.step (.rest (.of_eq rfl rfl rfl))⟩, henv⟩

/-! ## Jobs -/

theorem run_recorded : Recorded x.run :=
  spec_run env_recorded (fun _ => (push_recorded _).mono And.left fun _ _ => id)
    (next?_spec hx).recorded (execute_recorded hx)

end Expanding

end Expander

namespace Eng

theorem run_recorded (fuel : Nat) : Recorded (run fuel) :=
  get_recorded.seq fun m =>
    Expander.run_recorded (Expander.ofDepth_settling fuel m.limits.expansionDepth)

end Eng

/-! ## Reachable states -/

/-- All states that an engine gets into have a history, in which that happens to boxes what
    was taken down. -/
theorem Setup.Reaches.history {s : Setup} {m : Machine} (h : s.Reaches m) :
    ∃ steps, s.machine.History steps m ∧ Machine.eventsOf steps = m.boxEvents := by
  suffices hsome : ∃ steps, s.machine.History steps m by
    obtain ⟨steps, hsteps⟩ := hsome
    have hlog : m.boxLog = (Machine.eventsOf steps).reverse ++ [] := hsteps.boxLog
    exact ⟨steps, hsteps, by rw [Machine.boxEvents, hlog, List.append_nil, List.reverse_reverse]⟩
  induction h with
  | start => exact ⟨[], .refl⟩
  | pushText h text name ih =>
    obtain ⟨steps, hsteps⟩ := ih
    obtain ⟨steps', hsteps'⟩ := (Eng.pushText_recorded text name).history _
    exact ⟨_, hsteps.trans hsteps'⟩
  | run h fuel ih =>
    obtain ⟨steps, hsteps⟩ := ih
    obtain ⟨steps', hsteps'⟩ := (Eng.run_recorded fuel).history _
    exact ⟨_, hsteps.trans hsteps'⟩

/-- The environments of all states that an engine gets into have a course. -/
theorem Setup.Reaches.course {s : Setup} {m : Machine} (h : s.Reaches m) :
    ∃ es, s.machine.env.Course es m.env := by
  induction h with
  | start => exact ⟨[], .refl⟩
  | pushText h text name ih =>
    obtain ⟨es, hes⟩ := ih
    obtain ⟨es', hes'⟩ := (Eng.pushText_recorded text name).course _
    exact ⟨_, hes.trans hes'⟩
  | run h fuel ih =>
    obtain ⟨es, hes⟩ := ih
    obtain ⟨es', hes'⟩ := (Eng.run_recorded fuel).course _
    exact ⟨_, hes.trans hes'⟩

end TexEngine
