/-
  TexEngine.Proofs.Env.Contents

  Properties of everything that an environment keeps.  A property of assignments says
  what may be at a place; it holds of an environment if it holds of what is at each
  place now, and of all assignments by which open groups will restore places.  If it
  holds of the assignments that are made, it holds of the environment at all times.
-/
import TexEngine.Proofs.Engine.Legal.State

namespace TexEngine

namespace Env

variable {μ : Type}

/-! ## What is at a place -/

/-- An assignment is seen at its own place; all other places stay as they are. -/
theorem current_write (env : Env μ) (a b : Assignment μ) :
    (env.write a).current b = a ∨ (env.write a).current b = env.current b := by
  have hentry : ∀ {κ α : Type} {cmp : κ → κ → Ordering} [Std.TransCmp cmp] [Std.LawfulEqCmp cmp]
      [DecidableEq κ] (m : Std.TreeMap κ α cmp) (k k' : κ) (v : Option α)
      (f : κ → Option α → Assignment μ), f k' (alterEntry m k v)[k']? = f k v ∨
        f k' (alterEntry m k v)[k']? = f k' m[k']? := by
    intro κ α cmp _ _ _ m k k' v f
    rw [getElem?_alterEntry]
    by_cases hk : k = k'
    · subst hk
      exact .inl (by rw [if_pos rfl])
    · exact .inr (by rw [if_neg hk])
  -- Assignments to another kind of place change another table.
  cases a with
  | count name v =>
    cases b with
    | count name' w => exact hentry env.counts name name' v .count
    | _ => exact .inr rfl
  | dimen name v =>
    cases b with
    | dimen name' w => exact hentry env.dimens name name' v .dimen
    | _ => exact .inr rfl
  | glue name v =>
    cases b with
    | glue name' w => exact hentry env.glues name name' v .glue
    | _ => exact .inr rfl
  | toks name v =>
    cases b with
    | toks name' w => exact hentry env.toks name name' v .toks
    | _ => exact .inr rfl
  | box name v =>
    cases b with
    | box name' w => exact hentry env.boxes name name' v .box
    | _ => exact .inr rfl
  | code name v =>
    cases b with
    | code name' w => exact hentry env.codes name name' v .code
    | _ => exact .inr rfl
  | active c v =>
    cases b with
    | active c' w => exact hentry env.active c c' v .active
    | _ => exact .inr rfl
  | catcode c v =>
    cases b with
    | catcode c' w => exact hentry env.catcodes c c' v .catcode
    | _ => exact .inr rfl
  | charCode t c v =>
    cases b with
    | charCode t' c' w =>
      by_cases ht : t = t'
      · subst ht
        have htable : ((env.setTable t (alterEntry (env.table t) c v)).table t) =
            alterEntry (env.table t) c v := by
          cases t <;> rfl
        show Assignment.charCode t c' ((env.setTable t _).table t)[c']? = _ ∨
          Assignment.charCode t c' ((env.setTable t _).table t)[c']? = _
        rw [htable]
        exact hentry (env.table t) c c' v (.charCode t)
      · refine .inr ?_
        show Assignment.charCode t' c' ((env.setTable t _).table t')[c']? = _
        have htable : (env.setTable t (alterEntry (env.table t) c v)).table t' = env.table t' := by
          cases t <;> cases t' <;> first | rfl | exact absurd rfl ht
        rw [htable]
        rfl
    | _ => cases t <;> exact .inr rfl
  | font v => cases b <;> first | exact .inl rfl | exact .inr rfl
  | color v => cases b <;> first | exact .inl rfl | exact .inr rfl
  | direction v => cases b <;> first | exact .inl rfl | exact .inr rfl

/-! ## What assignments and groups do not change -/

theorem conditionals_write (env : Env μ) (a : Assignment μ) :
    (env.write a).conditionals = env.conditionals := by
  cases a with
  | charCode t c v => cases t <;> rfl
  | _ => rfl

theorem conditionals_assign (env : Env μ) (a : Assignment μ) (global : Bool) :
    (env.assign a global).conditionals = env.conditionals := by
  unfold assign
  rw [conditionals_write]
  split
  · rfl
  · unfold save
    split <;> rfl

theorem conditionals_restore (env : Env μ) (undo : List (Assignment μ)) :
    (env.restore undo).conditionals = env.conditionals := by
  unfold restore
  induction undo generalizing env with
  | nil => rfl
  | cons a undo ih => exact (ih (env.write a)).trans (conditionals_write env a)

theorem conditionals_afterGroup (env : Env μ) (t : Token) :
    (env.afterGroup t).conditionals = env.conditionals := by
  unfold afterGroup
  split <;> rfl

/-- Parts that no assignment changes and no group restores. -/
def lasting (env : Env μ) : Bool × FontBook × Option Token :=
  (env.unicodeLetters, env.fonts, env.afterAssignment)

theorem lasting_write (env : Env μ) (a : Assignment μ) : (env.write a).lasting = env.lasting := by
  cases a with
  | charCode t c v => cases t <;> rfl
  | _ => rfl

theorem lasting_save (env : Env μ) (a : Assignment μ) : (env.save a).lasting = env.lasting := by
  unfold save
  split <;> rfl

@[simp] theorem lasting_assign (env : Env μ) (a : Assignment μ) (global : Bool) :
    (env.assign a global).lasting = env.lasting := by
  unfold assign
  rw [lasting_write]
  split
  · rfl
  · exact lasting_save ..

@[simp] theorem lasting_setMeaning (env : Env μ) (t : Token) (m : Option μ) (global : Bool) :
    (env.setMeaning t m global).lasting = env.lasting :=
  lasting_assign ..

theorem lasting_restore (env : Env μ) (undo : List (Assignment μ)) :
    (env.restore undo).lasting = env.lasting := by
  unfold restore
  induction undo generalizing env with
  | nil => rfl
  | cons a undo ih => exact (ih (env.write a)).trans (lasting_write env a)

theorem lasting_closeGroup {env : Env Meaning} {nameOf : Meaning → String}
    {recorder : Option Recorder} {c : Closing Meaning}
    (h : env.closeGroup nameOf recorder = .ok c) : c.env.lasting = env.lasting := by
  obtain ⟨g, gs, -, -, henv | ⟨name, b, global, henv⟩⟩ := Legal.closeGroup_eq_ok h
  · rw [henv]
    exact lasting_restore env g.undo
  · rw [henv, lasting_assign]
    exact lasting_restore env g.undo

theorem lasting_afterGroup (env : Env μ) (t : Token) :
    (env.afterGroup t).lasting = env.lasting := by
  unfold afterGroup
  split <;> rfl

/-! ## What holds of everything that is kept -/

/-- `p` holds of what is at each place, and of what groups will restore; `q` holds of
    the tokens that wait for the end of a group or of an assignment. -/
structure Holds (p : Assignment μ → Prop) (q : Token → Prop) (env : Env μ) : Prop where
  current : ∀ a, p (env.current a)
  undo : ∀ g ∈ env.groups, ∀ a ∈ g.undo, p a
  afterTokens : ∀ g ∈ env.groups, ∀ t ∈ g.afterTokens, q t
  afterAssignment : ∀ t ∈ env.afterAssignment, q t

namespace Holds

variable {p : Assignment μ → Prop} {q : Token → Prop} {env : Env μ}

/-- Changes of other parts do not matter. -/
theorem congr (h : env.Holds p q) {env' : Env μ} (hcurrent : env'.current = env.current)
    (hgroups : env'.groups = env.groups) (hafter : env'.afterAssignment = env.afterAssignment) :
    env'.Holds p q where
  current := hcurrent ▸ h.current
  undo := hgroups ▸ h.undo
  afterTokens := hgroups ▸ h.afterTokens
  afterAssignment := hafter ▸ h.afterAssignment

theorem withGroups (h : env.Holds p q) {groups : List (Group μ)}
    (hundo : ∀ g ∈ groups, ∀ a ∈ g.undo, p a)
    (hafter : ∀ g ∈ groups, ∀ t ∈ g.afterTokens, q t) : Holds p q { env with groups } where
  current a := by
    have ha := h.current a
    cases a with
    | charCode t c v => cases t <;> exact ha
    | _ => exact ha
  undo := hundo
  afterTokens := hafter
  afterAssignment := h.afterAssignment

theorem write (h : env.Holds p q) {a : Assignment μ} (ha : p a) : (env.write a).Holds p q where
  current b := by
    rcases current_write env a b with hb | hb
    · rw [hb]
      exact ha
    · rw [hb]
      exact h.current b
  undo := by
    rw [groups_write]
    exact h.undo
  afterTokens := by
    rw [groups_write]
    exact h.afterTokens
  afterAssignment := by
    have hlasting := lasting_write env a
    simp only [lasting, Prod.mk.injEq] at hlasting
    rw [hlasting.2.2]
    exact h.afterAssignment

theorem save (h : env.Holds p q) {old : Assignment μ} (hold : p old) :
    (env.save old).Holds p q := by
  unfold Env.save
  split
  · exact h
  · rename_i g gs hgroups
    have hundo := h.undo
    have hafter := h.afterTokens
    rw [hgroups, List.forall_mem_cons] at hundo hafter
    have hsave : (∀ a ∈ (g.save old).undo, p a) ∧ ∀ t ∈ (g.save old).afterTokens, q t := by
      unfold Group.save
      split
      · exact ⟨hundo.1, hafter.1⟩
      · exact ⟨List.forall_mem_cons.mpr ⟨hold, hundo.1⟩, hafter.1⟩
    exact h.withGroups (List.forall_mem_cons.mpr ⟨hsave.1, hundo.2⟩)
      (List.forall_mem_cons.mpr ⟨hsave.2, hafter.2⟩)

theorem purge (h : env.Holds p q) (key : UndoKey) : (env.purge key).Holds p q := by
  refine h.withGroups (fun g hg => ?_) fun g hg => ?_
  · obtain ⟨g', hg', rfl⟩ := List.mem_map.mp hg
    exact fun a ha => h.undo g' hg' a (List.mem_filter.mp ha).1
  · obtain ⟨g', hg', rfl⟩ := List.mem_map.mp hg
    exact h.afterTokens g' hg'

/-- What a group will restore is what was at the place, of which `p` holds already. -/
theorem assign (h : env.Holds p q) {a : Assignment μ} (ha : p a) (global : Bool) :
    (env.assign a global).Holds p q := by
  unfold Env.assign
  apply write _ ha
  split
  · exact h.purge _
  · exact h.save (h.current a)

theorem openGroup (h : env.Holds p q) (type : GroupType) (locator : Locator) (start : Token)
    (deliver : Option Delivery) : (env.openGroup type locator start deliver).1.Holds p q :=
  h.withGroups (List.forall_mem_cons.mpr ⟨by simp, h.undo⟩)
    (List.forall_mem_cons.mpr ⟨by simp, h.afterTokens⟩)

theorem restore (h : env.Holds p q) {undo : List (Assignment μ)} (hundo : ∀ a ∈ undo, p a) :
    (env.restore undo).Holds p q := by
  unfold Env.restore
  induction undo generalizing env with
  | nil => exact h
  | cons a undo ih =>
    rw [List.forall_mem_cons] at hundo
    exact ih (h.write hundo.1) hundo.2

/-- The end of a group, which may put a box into a register, and the tokens that are to
    be read behind it. -/
theorem closeGroup {p : Assignment Meaning → Prop} {env : Env Meaning} (h : env.Holds p q)
    (hbox : ∀ name b, p (.box name b)) {nameOf : Meaning → String} {recorder : Option Recorder}
    {c : Closing Meaning} (hclose : env.closeGroup nameOf recorder = .ok c) :
    c.env.Holds p q ∧ ∀ t ∈ c.afterTokens, q t := by
  obtain ⟨g, gs, hgroups, hafter, henv⟩ := Legal.closeGroup_eq_ok hclose
  have hundo := h.undo
  have htokens := h.afterTokens
  rw [hgroups, List.forall_mem_cons] at hundo htokens
  have hrestored : Holds p q { env.restore g.undo with groups := gs } :=
    (h.restore hundo.1).withGroups hundo.2 htokens.2
  refine ⟨?_, ?_⟩
  · rcases henv with henv | ⟨name, b, global, henv⟩
    · rw [henv]
      exact hrestored
    · rw [henv]
      exact hrestored.assign (hbox name b) global
  · rw [hafter]
    exact fun t ht => htokens.1 t (List.mem_reverse.mp ht)

theorem afterGroup (h : env.Holds p q) {t : Token} (ht : q t) : (env.afterGroup t).Holds p q := by
  unfold Env.afterGroup
  split
  · exact h
  · rename_i g gs hgroups
    have hundo := h.undo
    have hafter := h.afterTokens
    rw [hgroups, List.forall_mem_cons] at hundo hafter
    exact h.withGroups (List.forall_mem_cons.mpr hundo)
      (List.forall_mem_cons.mpr ⟨List.forall_mem_cons.mpr ⟨ht, hafter.1⟩, hafter.2⟩)

end Holds

end Env

end TexEngine
