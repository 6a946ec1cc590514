/-
  TexEngine.Proofs.Engine.BoxUse

  How often boxes are used.  A box is built once, and then it is kept in a register until
  it goes to the typesetter.  The balance of a history says that all boxes that were used,
  and all that are still kept, have been built, up to two exceptions: \copy, and the
  contents that a group remembers when they are taken out of a register in it.  The end of
  the group puts these back, so that they can be used again.
-/
import TexEngine.Proofs.Engine.History.Execute
import TexEngine.Proofs.Env.Tables

namespace TexEngine

/-! ## Boxes that are kept -/

/-- The box that is assigned, if any. -/
def Assignment.box? {μ : Type} : Assignment μ → Option Box
  | .box _ v => v.join
  | _ => none

/-- The boxes that a group will put back. -/
def Group.rememberedBoxes {μ : Type} (g : Group μ) : List Box :=
  g.undo.filterMap Assignment.box?

namespace Env

/-- The boxes in a table of registers. -/
def boxesIn (registers : Std.TreeMap String (Option Box)) : List Box :=
  registers.toList.filterMap Prod.snd

/-- The boxes in the registers, and those that groups will put back there. -/
def heldBoxes {μ : Type} (env : Env μ) : List Box :=
  boxesIn env.boxes ++ env.groups.flatMap Group.rememberedBoxes

variable {μ : Type} {env env' : Env μ} (p : Box → Bool)

/-- Two tables that differ at one key only have the same other entries. -/
theorem perm_toList_of_eq_of_ne {κ α : Type} {cmp : κ → κ → Ordering} [Std.TransCmp cmp]
    [Std.LawfulEqCmp cmp] [DecidableEq κ] {m m' : Std.TreeMap κ α cmp} {k : κ}
    (h : ∀ k', k' ≠ k → m'[k']? = m[k']?) :
    m'.toList.Perm ((m'[k]?.map (k, ·)).toList ++ m.toList.filter (·.1 ≠ k)) := by
  have hnodup : ∀ t : Std.TreeMap κ α cmp, t.toList.Nodup := fun t =>
    (pairwise_toList t).imp fun hne heq => hne (congrArg Prod.fst heq)
  refine (List.perm_ext_iff_of_nodup (hnodup m') (List.nodup_append.mpr ⟨?_, ?_, ?_⟩)).mpr ?_
  · cases m'[k]? <;> simp
  · exact (hnodup m).filter _
  · rintro e he e' he' rfl
    obtain ⟨v, -, rfl⟩ := Option.map_eq_some_iff.mp (Option.mem_toList.mp he)
    simp at he'
  · rintro ⟨k', v⟩
    rw [List.mem_append, List.mem_filter, Std.TreeMap.mem_toList_iff_getElem?_eq_some,
      Std.TreeMap.mem_toList_iff_getElem?_eq_some]
    by_cases hk : k' = k
    · subst hk
      simp
    · rw [h k' hk]
      simp [hk, Ne.symm hk]

/-- Setting a register puts a new box in the place of an old one. -/
theorem countP_boxesIn_alterEntry (registers : Std.TreeMap String (Option Box)) (name : String)
    (v : Option (Option Box)) :
    (boxesIn (alterEntry registers name v)).countP p + registers[name]?.join.toList.countP p =
      (boxesIn registers).countP p + v.join.toList.countP p := by
  have hother : ∀ name', name' ≠ name →
      (alterEntry registers name v)[name']? = registers[name']? := fun name' hne => by
    rw [getElem?_alterEntry, if_neg (Ne.symm hne)]
  have hself : (alterEntry registers name v)[name]? = v := by
    rw [getElem?_alterEntry, if_pos rfl]
  have hboxes : ∀ v : Option (Option Box),
      (v.map (name, ·)).toList.filterMap Prod.snd = v.join.toList := by
    intro v
    rcases v with - | - | b <;> rfl
  have hnew := ((perm_toList_of_eq_of_ne hother).filterMap Prod.snd).countP_eq p
  have hsame : ∀ name', name' ≠ name → registers[name']? = registers[name']? := fun _ _ => rfl
  have hold := ((perm_toList_of_eq_of_ne hsame).filterMap Prod.snd).countP_eq p
  rw [List.filterMap_append, List.countP_append, hboxes] at hnew hold
  rw [hself] at hnew
  unfold boxesIn
  omega

/-- What an assignment to another place leaves alone. -/
theorem boxes_write_of_not_box {a : Assignment μ} (ha : a.isBox = false) :
    (env.write a).boxes = env.boxes := by
  cases a with
  | box name v => contradiction
  | charCode t c v => cases t <;> rfl
  | _ => rfl

/-! ## Assignments -/

theorem countP_rememberedBoxes_purge (g : Group μ) (key : UndoKey) :
    (g.purge key).rememberedBoxes.countP p ≤ g.rememberedBoxes.countP p :=
  ((List.filter_sublist (l := g.undo)).filterMap Assignment.box?).countP_le

/-- The boxes that groups will put back. -/
def remembered (env : Env μ) : List Box :=
  env.groups.flatMap Group.rememberedBoxes

theorem countP_heldBoxes (env : Env μ) :
    env.heldBoxes.countP p = (boxesIn env.boxes).countP p + env.remembered.countP p :=
  List.countP_append

theorem countP_remembered_purge (env : Env μ) (key : UndoKey) :
    (env.purge key).remembered.countP p ≤ env.remembered.countP p := by
  unfold remembered purge
  induction env.groups with
  | nil => exact Nat.le_refl _
  | cons g gs ih =>
    rw [List.map_cons, List.flatMap_cons, List.flatMap_cons, List.countP_append, List.countP_append]
    exact Nat.add_le_add (countP_rememberedBoxes_purge p g key) ih

/-- A group remembers at most what is at the place, and nothing if it knows the place. -/
theorem countP_remembered_save (env : Env μ) (old : Assignment μ) :
    (env.save old).remembered.countP p =
      env.remembered.countP p +
        if env.remembers old.key then old.box?.toList.countP p else 0 := by
  unfold remembered save remembers
  cases hgroups : env.groups with
  | nil => simp [hgroups]
  | cons g gs =>
    dsimp only
    rw [List.flatMap_cons, List.flatMap_cons, List.countP_append, List.countP_append]
    unfold Group.save
    by_cases hknown : g.undo.any (·.key = old.key) = true
    · rw [if_pos hknown]
      simp [hknown]
    · rw [if_neg hknown]
      have hcons : Group.rememberedBoxes { g with undo := old :: g.undo } =
          old.box?.toList ++ g.rememberedBoxes := by
        unfold Group.rememberedBoxes
        rw [List.filterMap_cons]
        cases old.box? <;> rfl
      rw [hcons, List.countP_append]
      simp only [hknown, Bool.not_false, if_true]
      omega

theorem remembered_write (env : Env μ) (a : Assignment μ) :
    (env.write a).remembered = env.remembered := by
  rw [remembered, groups_write]
  rfl

/-- An assignment to another place keeps no more boxes than before. -/
theorem countP_heldBoxes_assign_of_not_box (env : Env μ) {a : Assignment μ} (ha : a.isBox = false)
    (global : Bool) : (env.assign a global).heldBoxes.countP p ≤ env.heldBoxes.countP p := by
  have hcurrent : (env.current a).box? = none := by
    cases a with
    | box name v => contradiction
    | _ => rfl
  rw [countP_heldBoxes, countP_heldBoxes]
  unfold assign
  rw [remembered_write, boxes_write_of_not_box ha]
  split
  · exact Nat.add_le_add_left (countP_remembered_purge p env a.key) _
  · have hsave := countP_remembered_save p env (env.current a)
    have hboxes : (env.save (env.current a)).boxes = env.boxes := by
      unfold save
      split <;> rfl
    rw [hcurrent] at hsave
    rw [hsave, hboxes]
    simp

/-- An assignment to a register keeps the boxes that were there before, and the new one. -/
theorem countP_heldBoxes_assign_box (env : Env μ) (name : String) (v : Option (Option Box))
    (global : Bool) : (env.assign (.box name v) global).heldBoxes.countP p ≤
      env.heldBoxes.countP p + v.join.toList.countP p := by
  rw [countP_heldBoxes, countP_heldBoxes]
  unfold assign
  rw [remembered_write]
  have hentry : ∀ env' : Env μ, env'.boxes = env.boxes →
      (boxesIn (env'.write (.box name v)).boxes).countP p +
          env.boxes[name]?.join.toList.countP p =
        (boxesIn env.boxes).countP p + v.join.toList.countP p := by
    intro env' hboxes
    rw [← hboxes]
    exact countP_boxesIn_alterEntry p env'.boxes name v
  split
  · have hpurge := countP_remembered_purge p env (.box name)
    have hboxes := hentry (env.purge (.box name)) rfl
    dsimp only [Assignment.key]
    omega
  · have hsave := countP_remembered_save p env (env.current (.box name v))
    have hboxes := hentry (env.save (env.current (.box name v))) (by unfold save; split <;> rfl)
    have hold : (env.current (.box name v)).box? = env.boxes[name]?.join := rfl
    rw [hold] at hsave
    split at hsave <;> omega

/-- At the end of a group, what it remembered replaces what was in the registers. -/
theorem countP_boxesIn_restore (env : Env μ) (undo : List (Assignment μ)) :
    (boxesIn (env.restore undo).boxes).countP p ≤
      (boxesIn env.boxes).countP p + (undo.filterMap Assignment.box?).countP p := by
  unfold restore
  -- By induction on the entries: each is either about no box, or trades the box in the register
  -- for the one that the entry has kept.
  induction undo generalizing env with
  | nil => exact Nat.le_refl _
  | cons a undo ih =>
    have hrest := ih (env.write a)
    rw [List.foldl_cons, List.filterMap_cons]
    by_cases ha : a.isBox = false
    · have hnone : a.box? = none := by
        cases a with
        | box name v => contradiction
        | _ => rfl
      rw [boxes_write_of_not_box ha] at hrest
      rw [hnone]
      exact hrest
    · cases a with
      | box name v =>
        have hwrite := countP_boxesIn_alterEntry p env.boxes name v
        have hboxes : (env.write (.box name v)).boxes = alterEntry env.boxes name v := rfl
        have hbox : (Assignment.box name v : Assignment μ).box? = v.join := rfl
        rw [hboxes] at hrest
        rw [hbox]
        cases hv : v.join with
        | none =>
          rw [hv] at hwrite
          simp only [Option.toList_none, List.countP_nil] at hwrite ⊢
          omega
        | some b =>
          rw [hv] at hwrite
          dsimp only
          rw [List.countP_cons]
          rw [Option.toList_some, List.countP_singleton] at hwrite
          omega
      | _ => exact absurd rfl ha

theorem countP_heldBoxes_unwound (env : Env Meaning) {g : Group Meaning}
    {gs : List (Group Meaning)} (hgroups : env.groups = g :: gs) :
    (env.unwound g gs).heldBoxes.countP p ≤ env.heldBoxes.countP p := by
  have hrestore := countP_boxesIn_restore p env g.undo
  have hremembered : env.remembered.countP p =
      g.rememberedBoxes.countP p + (gs.flatMap Group.rememberedBoxes).countP p := by
    rw [remembered, hgroups, List.flatMap_cons, List.countP_append]
  have hunwound : (env.unwound g gs).remembered = gs.flatMap Group.rememberedBoxes := rfl
  have hboxes : (env.unwound g gs).boxes = (env.restore g.undo).boxes := rfl
  rw [countP_heldBoxes, countP_heldBoxes, hremembered, hunwound, hboxes]
  unfold Group.rememberedBoxes at *
  omega

end Env

/-! ## The balance of a change -/

/-- The boxes that were built. -/
def builtBoxes (events : List BoxEvent) : List Box :=
  events.filterMap fun
    | .built b => some b
    | _ => none

/-- The boxes that went to the typesetter. -/
def usedBoxes (events : List BoxEvent) : List Box :=
  events.filterMap fun
    | .used b => some b
    | _ => none

/-- The boxes that were copied. -/
def copiedBoxes (events : List BoxEvent) : List Box :=
  events.filterMap fun
    | .copied b => some b
    | _ => none

/-- The boxes that were taken out of a register while the group remembered them. -/
def rememberedBoxes (events : List BoxEvent) : List Box :=
  events.filterMap fun
    | .remembered b => some b
    | _ => none

theorem usedBoxes_append (events events' : List BoxEvent) :
    usedBoxes (events ++ events') = usedBoxes events ++ usedBoxes events' :=
  List.filterMap_append ..

theorem builtBoxes_append (events events' : List BoxEvent) :
    builtBoxes (events ++ events') = builtBoxes events ++ builtBoxes events' :=
  List.filterMap_append ..

theorem copiedBoxes_append (events events' : List BoxEvent) :
    copiedBoxes (events ++ events') = copiedBoxes events ++ copiedBoxes events' :=
  List.filterMap_append ..

theorem rememberedBoxes_append (events events' : List BoxEvent) :
    rememberedBoxes (events ++ events') = rememberedBoxes events ++ rememberedBoxes events' :=
  List.filterMap_append ..

/-- Between two states, all boxes that were used, and all that are kept in the end, were
    kept at first or built, copied or remembered on the way. -/
def Env.Balanced (p : Box → Bool) (env : Env Meaning) (events : List BoxEvent)
    (env' : Env Meaning) : Prop :=
  (usedBoxes events).countP p + env'.heldBoxes.countP p ≤
    env.heldBoxes.countP p + (builtBoxes events).countP p + (copiedBoxes events).countP p +
      (rememberedBoxes events).countP p

/-- All boxes that were used, and all that are kept, were built, copied or remembered.  So a
    box that is neither copied nor remembered is used at most as often as it was built. -/
structure Env.Accounts (p : Box → Bool) (env : Env Meaning) (events : List BoxEvent) : Prop where
  kept : (usedBoxes events).countP p + env.heldBoxes.countP p ≤
    (builtBoxes events).countP p + (copiedBoxes events).countP p +
      (rememberedBoxes events).countP p
  used : copiedBoxes events = [] → rememberedBoxes events = [] →
    (usedBoxes events).countP p ≤ (builtBoxes events).countP p

namespace Env

variable {env env' env'' : Env Meaning} {events events' : List BoxEvent} {p : Box → Bool}

theorem Balanced.trans (h : env.Balanced p events env') (h' : env'.Balanced p events' env'') :
    env.Balanced p (events ++ events') env'' := by
  unfold Balanced at *
  rw [usedBoxes_append, builtBoxes_append, copiedBoxes_append, rememberedBoxes_append,
    List.countP_append, List.countP_append, List.countP_append, List.countP_append]
  omega

/-- Where nothing happens to boxes, there must not be more of them. -/
theorem balanced_nil (h : env'.heldBoxes.countP p ≤ env.heldBoxes.countP p) :
    env.Balanced p [] env' := by
  simpa [Balanced, usedBoxes, builtBoxes, copiedBoxes, rememberedBoxes] using h

theorem balanced_of_eq (hboxes : env'.boxes = env.boxes) (hgroups : env'.groups = env.groups) :
    env.Balanced p [] env' := by
  refine balanced_nil (Nat.le_of_eq ?_)
  rw [heldBoxes, heldBoxes, hboxes, hgroups]

/-- What is fetched from a register is not kept any more, unless it is copied, or
    remembered by the group. -/
theorem countP_heldBoxes_fetchBox (p : Box → Bool) (env : Env Meaning) (name : String)
    (keep : Bool) :
    (env.fetchBox name keep).heldBoxes.countP p + (env.box name).toList.countP p ≤
      env.heldBoxes.countP p + (copiedBoxes (BoxEvent.fetch env name keep)).countP p +
        (rememberedBoxes (BoxEvent.fetch env name keep)).countP p := by
  unfold fetchBox BoxEvent.fetch
  cases hbox : env.box name with
  | none => simp [copiedBoxes, rememberedBoxes]
  | some b =>
    have hregister : env.boxes[name]?.join = some b := by
      rw [← hbox, box]
      cases env.boxes[name]? <;> rfl
    cases keep with
    | true => simp [copiedBoxes, rememberedBoxes]
    | false =>
      have hsave := countP_remembered_save p env (env.current (.box name (some none)))
      have hboxes := countP_boxesIn_alterEntry p env.boxes name (some none)
      have hsaved : (env.save (env.current (.box name (some none)))).boxes = env.boxes := by
        unfold save
        split <;> rfl
      have hassign : (env.assign (.box name (some none)) false).heldBoxes.countP p =
          (boxesIn (alterEntry env.boxes name (some none))).countP p +
            (env.save (env.current (.box name (some none)))).remembered.countP p := by
        rw [countP_heldBoxes, ← hsaved]
        exact congrArg (_ + ·) (congrArg (List.countP p) (remembered_write ..))
      have hold : (env.current (.box name (some none))).box? = some b := hregister
      have hkey : (env.current (.box name (some none))).key = .box name := rfl
      rw [hold, hkey] at hsave
      rw [hregister] at hboxes
      have hdrop : (if (some b).isSome && !false then env.assign (.box name (some none)) false
          else env) = env.assign (.box name (some none)) false := rfl
      rw [hdrop, hassign, countP_heldBoxes]
      -- The box has left its register; only a group that has not saved this register keeps it.
      by_cases hremembers : env.remembers (.box name)
      · simp only [hremembers, if_true, Bool.false_eq_true, if_false] at hsave hboxes ⊢
        simp only [copiedBoxes, rememberedBoxes, List.filterMap_cons, List.filterMap_nil,
          List.countP_nil, Option.toList_some, Option.join_some, Option.toList_none]
          at hboxes hsave ⊢
        omega
      · simp only [hremembers, if_false, Bool.false_eq_true] at hsave hboxes ⊢
        simp only [copiedBoxes, rememberedBoxes, List.filterMap_nil, List.countP_nil,
          Option.toList_some, Option.join_some, Option.toList_none] at hboxes hsave ⊢
        omega

/-- Fetching a box neither builds nor uses it. -/
theorem usedBoxes_fetch (env : Env Meaning) (name : String) (keep : Bool) :
    usedBoxes (BoxEvent.fetch env name keep) = [] ∧
      builtBoxes (BoxEvent.fetch env name keep) = [] := by
  unfold BoxEvent.fetch
  split
  · exact ⟨rfl, rfl⟩
  · split
    · exact ⟨rfl, rfl⟩
    · split <;> exact ⟨rfl, rfl⟩

/-- A box that is received is kept in a register, or goes to the typesetter. -/
theorem countP_heldBoxes_receive (p : Box → Bool) (env : Env Meaning) (b : Box)
    (deliver : Option Delivery) (depth : Nat) :
    (usedBoxes (BoxEvent.finish depth b deliver)).countP p +
        (env.receive b deliver).heldBoxes.countP p ≤
      env.heldBoxes.countP p + (builtBoxes (BoxEvent.finish depth b deliver)).countP p := by
  rcases deliver with - | - | ⟨name, global⟩
  · simp [receive, usedBoxes, BoxEvent.finish]
  · simp [receive, usedBoxes, builtBoxes, BoxEvent.finish, BoxEvent.deliver]
    omega
  · have hassign := countP_heldBoxes_assign_box p env name (some (some b)) global
    simpa [receive, usedBoxes, builtBoxes, BoxEvent.finish] using hassign

theorem Relaxes.countP_heldBoxes_le (p : Box → Bool) {names : List String}
    (h : env.Relaxes names env') : env'.heldBoxes.countP p ≤ env.heldBoxes.countP p := by
  induction h with
  | refl => exact Nat.le_refl _
  | relax _ _ ih => exact (countP_heldBoxes_assign_of_not_box p _ rfl false).trans ih
  | conditionals _ cs ih => exact ih

end Env

namespace Machine

variable {m m' : Machine} {events : List BoxEvent} {steps : List Step}

theorem Change.balanced (h : m.Change events m') (p : Box → Bool) :
    m.env.Balanced p events m'.env := by
  cases h with
  | expand hexpands =>
    obtain ⟨names, hnames⟩ := hexpands.env
    exact Env.balanced_nil (hnames.countP_heldBoxes_le p)
  | rest hsame => exact Env.balanced_of_eq hsame.boxes hsame.groups
  | assign a global hbox hmeaning =>
    exact Env.balanced_nil (Env.countP_heldBoxes_assign_of_not_box p m.env hbox global)
  | afterGroup t =>
    refine Env.balanced_nil (Nat.le_of_eq (congrArg (List.countP p) ?_))
    unfold Env.heldBoxes Env.afterGroup
    split
    · rfl
    · rename_i g gs hgroups
      rw [hgroups]
      rfl
  | openGroup type locator start htype => exact Env.balanced_nil (Nat.le_refl _)
  | openBox kind spec locator start deliver => exact Env.balanced_nil (Nat.le_refl _)
  | @closeGroup g gs b r c hgroups hbox hclose =>
    -- First the registers get back what the group remembers, then the box is received.
    obtain ⟨henv, -⟩ := Env.closeGroup_eq_receive hgroups hbox hclose
    have hunwound := Env.countP_heldBoxes_unwound p m.env hgroups
    have hreceive :=
      Env.countP_heldBoxes_receive p (m.env.unwound g gs) b g.deliver r.boxes.length
    show m.env.Balanced p _ c.env
    rw [henv, Env.Balanced]
    omega
  | typeset n hbox => exact Env.balanced_nil (Nat.le_refl _)
  | @useBox name keep b hbox =>
    have hfetch := Env.countP_heldBoxes_fetchBox p m.env name keep
    obtain ⟨hused, hbuilt⟩ := Env.usedBoxes_fetch m.env name keep
    rw [hbox] at hfetch
    have hdeliver : usedBoxes (BoxEvent.deliver m.page.boxes.length b) = [b] ∧
        builtBoxes (BoxEvent.deliver m.page.boxes.length b) = [] ∧
        copiedBoxes (BoxEvent.deliver m.page.boxes.length b) = [] ∧
        rememberedBoxes (BoxEvent.deliver m.page.boxes.length b) = [] := ⟨rfl, rfl, rfl, rfl⟩
    obtain ⟨hused', hbuilt', hcopied', hremembered'⟩ := hdeliver
    show m.env.Balanced p _ (m.env.fetchBox name keep)
    rw [Env.Balanced, usedBoxes_append, builtBoxes_append, copiedBoxes_append,
      rememberedBoxes_append, hused, hbuilt, hused', hbuilt', hcopied', hremembered']
    simp only [List.nil_append, List.append_nil, List.countP_nil, Option.toList_some] at hfetch ⊢
    omega
  | moveBox source keep target global =>
    have hfetch := Env.countP_heldBoxes_fetchBox p m.env source keep
    have hassign := Env.countP_heldBoxes_assign_box p (m.env.fetchBox source keep) target
      (some (m.env.box source)) global
    obtain ⟨hused, hbuilt⟩ := Env.usedBoxes_fetch m.env source keep
    rw [Option.join_some] at hassign
    show m.env.Balanced p _ (Env.assign _ _ _)
    rw [Env.Balanced, hused, hbuilt, List.countP_nil]
    omega

theorem History.balanced (h : m.History steps m') (p : Box → Bool) :
    m.env.Balanced p (eventsOf steps) m'.env := by
  induction h with
  | refl => exact Env.balanced_nil (Nat.le_refl _)
  | step _ hchange ih =>
    rw [eventsOf_append, eventsOf_singleton]
    exact ih.trans (hchange.balanced p)

/-- The end of a group as a change. -/
theorem change_closeGroup {g : Group Meaning} {gs : List (Group Meaning)} {b : Box} {r : Recorder}
    (hgroups : m.env.groups = g :: gs) (hbox : g.finishBox? m.page = some (b, r)) :
    m.Change (BoxEvent.finish r.boxes.length b g.deliver)
      ({ m with env := (m.env.unwound g gs).receive b g.deliver
                page := r.receive b g.deliver }.logBoxes
        (BoxEvent.finish r.boxes.length b g.deliver)) := by
  obtain ⟨c, hclose, henv, hrecorder⟩ := Env.exists_closeGroup_eq_ok Meaning.name hgroups hbox
  have hchange := Change.closeGroup hgroups hbox hclose
  rw [henv, hrecorder] at hchange
  exact hchange

end Machine

namespace Setup

open Machine

/-- The balance of boxes.  All states that an engine gets into have a history, in which that
    happened which the engine has taken down.  The boxes that went to the typesetter, and those
    that are still kept, were built, copied, or taken while a group remembered them.  If nothing
    is copied, and nothing taken that a group remembers, every box is used at most as often as
    it was built.  This is so for every history. -/
theorem boxes_balanced (s : Setup) :
    (∀ m, s.Reaches m → (∃ steps, s.machine.History steps m ∧ eventsOf steps = m.boxEvents) ∧
      ∀ p, m.env.Accounts p m.boxEvents) ∧
      ∀ steps m, s.machine.History steps m → ∀ p, m.env.Accounts p (eventsOf steps) := by
  have hhistory : ∀ steps m, s.machine.History steps m →
      ∀ p, m.env.Accounts p (eventsOf steps) := by
    intro steps m h p
    have hbalanced := h.balanced p
    have hfresh : s.machine.env.heldBoxes = [] := rfl
    rw [Env.Balanced, hfresh, List.countP_nil, Nat.zero_add] at hbalanced
    refine ⟨hbalanced, fun hcopied hremembered => ?_⟩
    rw [hcopied, hremembered] at hbalanced
    simp only [List.countP_nil, Nat.add_zero] at hbalanced
    exact Nat.le_of_add_right_le hbalanced
  refine ⟨fun m h => ?_, hhistory⟩
  obtain ⟨steps, hsteps, hevents⟩ := h.history
  exact ⟨⟨steps, hsteps, hevents⟩, fun p => hevents ▸ hhistory steps m hsteps p⟩

/-- An item of the box. -/
def letterA : Node :=
  .char 97 { font := some Font.null }

/-- The box. -/
def boxOfA : Box :=
  { nodes := [letterA] }

/-- What a text builds, copies and uses: the number of boxes. -/
def counts (text : String) : Nat × Nat × Nat :=
  let events := (afterText text).boxEvents
  ((builtBoxes events).length, (copiedBoxes events).length, (usedBoxes events).length)

/-- A box that is taken out of its register in a group is used a second time behind the
    group, although it was built once and never copied; so the page holds it twice. -/
theorem used_twice :
    (∃ steps m, ({ options := { preset := .plain } } : Setup).machine.History steps m ∧
      copiedBoxes (eventsOf steps) = [] ∧ builtBoxes (eventsOf steps) = [boxOfA] ∧
        usedBoxes (eventsOf steps) = [boxOfA, boxOfA] ∧
        m.page.page = [Box.node? (some boxOfA), Box.node? (some boxOfA)]) ∧
      (afterText "\\setbox0\\hbox\x7ba\x7d\x7b\\box0\x7d\\box0").page.page.map Node.text =
        [(Box.node? (some boxOfA)).text, (Box.node? (some boxOfA)).text] ∧
      counts "\\setbox0\\hbox\x7ba\x7d\x7b\\box0\x7d\\box0" = (1, 0, 2) := by
  refine ⟨?_, by decide +kernel⟩
  have hbuilt := (History.refl (m := ({ options := { preset := .plain } } : Setup).machine)).step
    (.openBox .horizontal .natural {} (.cs "hbox") (.toRegister "0" false)) |>.step
    (.typeset letterA rfl) |>.step (change_closeGroup rfl rfl)
  -- The group remembers the box, and puts it back.
  have hused := hbuilt.step (.openGroup .simple {} (.char 123 .beginGroup) rfl) |>.step
    (.useBox "0" false rfl) |>.step (change_closeGroup rfl rfl) |>.step (.useBox "0" false rfl)
  exact ⟨_, _, hused, rfl, rfl, rfl, rfl⟩

/-- Without a group, the box is used once. -/
theorem boxes_balanced_once : ∃ steps m,
    ({ options := { preset := .plain } } : Setup).machine.History steps m ∧
      (usedBoxes (eventsOf steps)).countP (fun _ => true) = 1 ∧
      (usedBoxes (eventsOf steps)).countP (fun _ => true) ≤
        (builtBoxes (eventsOf steps)).countP fun _ => true := by
  have hbuilt := (History.refl (m := ({ options := { preset := .plain } } : Setup).machine)).step
    (.openBox .horizontal .natural {} (.cs "hbox") (.toRegister "0" false)) |>.step
    (.typeset letterA rfl) |>.step (change_closeGroup rfl rfl) |>.step (.useBox "0" false rfl)
  exact ⟨_, _, hbuilt, rfl, ((boxes_balanced _).2 _ _ hbuilt _).used rfl rfl⟩

end Setup

end TexEngine
