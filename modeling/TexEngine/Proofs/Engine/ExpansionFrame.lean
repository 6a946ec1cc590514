/-
  TexEngine.Proofs.Engine.ExpansionFrame

  What expansion leaves alone.  Reading an expanded token, whatever is expanded on the
  way and whether it fails or not, changes nothing that assignments can change, with
  one exception: control sequences that are undefined may become \relax, as by local
  assignments (`Env.relaxAll`).
-/
import TexEngine.Proofs.Engine.Legal.Expand

namespace TexEngine

/-- The group without what it knows about local assignments. -/
def Group.frame (g : Group Meaning) : Group Meaning :=
  { g with undo := [] }

@[simp] theorem Group.frame_save (g : Group Meaning) (old : Assignment Meaning) :
    (g.save old).frame = g.frame := by
  unfold Group.save
  split <;> rfl

namespace Env

variable {env env' env'' : Env Meaning} {names : List String}

/-! ## Control sequences that become \relax -/

/-- Gives control sequences the meaning \relax, by local assignments. -/
def relaxAll (env : Env Meaning) (names : List String) : Env Meaning :=
  names.foldl (fun env name => env.assign (.code name (some Meaning.relax)) false) env

theorem relaxAll_append_singleton (env : Env Meaning) (names : List String) (name : String) :
    env.relaxAll (names ++ [name]) =
      (env.relaxAll names).assign (.code name (some Meaning.relax)) false := by
  rw [relaxAll, List.foldl_append]
  rfl

/-- The groups after the innermost one was told how to restore a place. -/
def saveInnermost (old : Assignment Meaning) : List (Group Meaning) → List (Group Meaning)
  | [] => []
  | g :: gs => g.save old :: gs

/-- A local assignment of a meaning concerns the meanings and the innermost group. -/
theorem assign_code_eq (env : Env Meaning) (name : String) (μ? : Option Meaning) :
    env.assign (.code name μ?) false =
      { env with
        groups := saveInnermost (.code name env.codes[name]?) env.groups
        codes := alterEntry env.codes name μ? } :=
  match env with
  | { groups := [], .. } => rfl
  | { groups := _ :: _, .. } => rfl

theorem code?_assign_code (env : Env Meaning) (name : String) (μ? : Option Meaning)
    (name' : String) :
    (env.assign (.code name μ?) false).code? name' =
      if name = name' then μ? else env.code? name' := by
  rw [assign_code_eq]
  exact getElem?_alterEntry ..

/-- Where control sequences have become \relax, the others have their old meanings. -/
theorem Relaxes.code? (h : env.Relaxes names env') (name : String) :
    env'.code? name = if name ∈ names then some Meaning.relax else env.code? name := by
  induction h with
  | refl => simp
  | @relax names env' name' h hname ih =>
    rw [code?_assign_code, ih]
    by_cases hlast : name' = name
    · simp [hlast]
    · simp [hlast, Ne.symm hlast]
  | conditionals h cs ih => exact ih

/-- Only control sequences that were undefined have become \relax, each of them
    once. -/
theorem Relaxes.undefined (h : env.Relaxes names env') :
    names.Nodup ∧ ∀ name ∈ names, env.code? name = none := by
  induction h with
  | refl => exact ⟨List.nodup_nil, by simp⟩
  | @relax names env' name h hname ih =>
    have hnew := h.code? name
    rw [hname] at hnew
    -- A name that has become \relax before is defined now, so the new one differs from all.
    have hfresh : name ∉ names := by
      intro hmem
      rw [if_pos hmem] at hnew
      contradiction
    rw [if_neg hfresh] at hnew
    refine ⟨List.nodup_append.mpr ⟨ih.1, by simp, ?_⟩, ?_⟩
    · intro a ha b hb hab
      rw [List.mem_singleton.mp hb] at hab
      exact hfresh (hab ▸ ha)
    · intro a ha
      rcases List.mem_append.mp ha with ha | ha
      · exact ih.2 a ha
      · rw [List.mem_singleton.mp ha]
        exact hnew.symm
  | conditionals h cs ih => exact ih

/-- The environment is determined by the names and the conditionals. -/
theorem Relaxes.eq_relaxAll (h : env.Relaxes names env') :
    env' = { env.relaxAll names with conditionals := env'.conditionals } := by
  induction h with
  | refl => rfl
  | @relax names env' name h hname ih =>
    rw [relaxAll_append_singleton, assign_code_eq, assign_code_eq, ih]
  | @conditionals names env' h cs ih =>
    rw [ih]

/-! ## The rest of the environment -/

/-- Everything that assignments can change is as before, except that control sequences
    may have got a meaning. -/
structure Undisturbed (env env' : Env Meaning) : Prop where
  counts : env'.counts = env.counts
  dimens : env'.dimens = env.dimens
  glues : env'.glues = env.glues
  toks : env'.toks = env.toks
  boxes : env'.boxes = env.boxes
  catcodes : env'.catcodes = env.catcodes
  table : ∀ t, env'.table t = env.table t
  fonts : env'.fonts = env.fonts
  font : env'.font = env.font
  color : env'.color = env.color
  direction : env'.direction = env.direction
  frames : env'.groups.map Group.frame = env.groups.map Group.frame
  afterAssignment : env'.afterAssignment = env.afterAssignment
  active : env'.active = env.active
  code? : ∀ name μ, env.code? name = some μ → env'.code? name = some μ

theorem Undisturbed.trans (h : env.Undisturbed env') (h' : env'.Undisturbed env'') :
    env.Undisturbed env'' where
  counts := h'.counts.trans h.counts
  dimens := h'.dimens.trans h.dimens
  glues := h'.glues.trans h.glues
  toks := h'.toks.trans h.toks
  boxes := h'.boxes.trans h.boxes
  catcodes := h'.catcodes.trans h.catcodes
  table := fun t => (h'.table t).trans (h.table t)
  fonts := h'.fonts.trans h.fonts
  font := h'.font.trans h.font
  color := h'.color.trans h.color
  direction := h'.direction.trans h.direction
  frames := h'.frames.trans h.frames
  afterAssignment := h'.afterAssignment.trans h.afterAssignment
  active := h'.active.trans h.active
  code? := fun name μ hμ => h'.code? name μ (h.code? name μ hμ)

theorem undisturbed_setConditionals (env : Env Meaning) (conditionals : Array Conditional) :
    env.Undisturbed { env with conditionals } := by
  constructor <;> first | exact fun _ => rfl | exact fun _ _ h => h | rfl

/-- Giving an undefined control sequence a meaning. -/
theorem undisturbed_assign_code {name : String} (hname : env.code? name = none)
    (μ? : Option Meaning) : env.Undisturbed (env.assign (.code name μ?) false) := by
  have hcode : ∀ name' μ, env.code? name' = some μ →
      (env.assign (.code name μ?) false).code? name' = some μ := by
    intro name' μ hμ
    have hne : name ≠ name' := by
      rintro rfl
      rw [hname] at hμ
      contradiction
    rw [code?_assign_code, if_neg hne, hμ]
  have hframes : (saveInnermost (.code name env.codes[name]?) env.groups).map Group.frame =
      env.groups.map Group.frame := by
    cases env.groups with
    | nil => rfl
    | cons g gs => rw [saveInnermost, List.map_cons, List.map_cons, Group.frame_save]
  rw [assign_code_eq] at hcode ⊢
  exact { code? := hcode, frames := hframes, counts := rfl, dimens := rfl, glues := rfl,
          toks := rfl, boxes := rfl, catcodes := rfl, table := fun _ => rfl, fonts := rfl,
          font := rfl, color := rfl, direction := rfl, afterAssignment := rfl, active := rfl }

theorem Relaxes.undisturbed (h : env.Relaxes names env') : env.Undisturbed env' := by
  induction h with
  | refl => exact undisturbed_setConditionals env env.conditionals
  | relax h hname ih => exact ih.trans (undisturbed_assign_code hname _)
  | conditionals h cs ih => exact ih.trans (undisturbed_setConditionals _ cs)

theorem Undisturbed.meaning? (h : env.Undisturbed env') {t : Token} {μ : Meaning}
    (hμ : env.meaning? t = some μ) : env'.meaning? t = some μ := by
  unfold Env.meaning? at hμ ⊢
  split
  · rename_i hcs
    rw [if_pos hcs] at hμ
    exact h.code? _ _ hμ
  · rename_i hcs
    rw [if_neg hcs] at hμ
    unfold active? at hμ ⊢
    rwa [h.active]

end Env

/-! ## Expansion -/

/-- States that agree in the parts which expansion has nothing to do with differ at
    most in the others. -/
theorem Machine.eq_of_apart_eq {m m' : Machine} (h : m'.apart = m.apart) :
    m' = { m with env := m'.env, input := m'.input, marked := m'.marked, frozen := m'.frozen,
                  log := m'.log, observed := m'.observed } := by
  cases m
  cases m'
  simp only [apart, Machine.mk.injEq, true_and] at h ⊢
  exact h

/-- Reading an expanded token, at whatever depth of expansions, leaves the assigned
    state alone. -/
theorem Expander.next?_leaves_assigned_state (fuel depth : Nat) (m : Machine) :
    let m' := (Expander.ofDepth fuel depth).next?.after m
    m.env.Undisturbed m'.env ∧ m'.modifiers = m.modifiers ∧ m'.page = m.page ∧
      (∀ t μ, m.env.meaning? t = some μ → m'.env.meaning? t = some μ) ∧
      (∃ names, names.Nodup ∧ (∀ name ∈ names, m.env.code? name = none) ∧
        m'.env = { m.env.relaxAll names with conditionals := m'.env.conditionals }) ∧
      m' = { m with env := m'.env, input := m'.input, marked := m'.marked, frozen := m'.frozen,
                    log := m'.log, observed := m'.observed } := by
  intro m'
  have hnext := next?_spec (P := True) (ofDepth_disciplined fuel depth)
  have hexpands : m.Expands m' := hnext.rel_after m
  obtain ⟨names, hnames⟩ := hexpands.env
  have hundisturbed := hnames.undisturbed
  have hapart := hexpands.apart
  exact ⟨hundisturbed, (congrArg Machine.modifiers hapart :), (congrArg Machine.page hapart :),
    fun t μ => hundisturbed.meaning?, ⟨names, hnames.undefined.1, hnames.undefined.2,
      hnames.eq_relaxAll⟩, Machine.eq_of_apart_eq hapart⟩

end TexEngine
