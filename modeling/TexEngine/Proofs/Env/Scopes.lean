/-
  TexEngine.Proofs.Env.Scopes

  Groups as copies.  The environment keeps one current value for every place,
  and every open group remembers how to undo its local assignments.  The model it
  is compared with has no undo lists: opening a group copies the contents of all
  places, a local assignment changes the innermost copy, a global one changes all
  copies, and closing a group drops the innermost copy.

  The main statement is that both agree on every look-up, on the number of open
  groups and on which attempts to close a group fail, after every sequence of
  operations.  The invariant behind it says that running the undo list of the
  innermost group on the current contents gives the copy below, and so on
  outwards.
-/
import TexEngine.Proofs.Env.Valuation

namespace TexEngine

/-! ## Operations -/

/-- A call that gives a place a value. -/
structure Setting (μ : Type) where
  place : Place
  value : place.Content μ

namespace Setting

variable {μ : Type}

/-- The assignment that a call makes.  Meanings can be taken away; every other place
    gets an entry. -/
def assignment : Setting μ → Assignment μ
  | ⟨.count name, v⟩ => .count name (some v)
  | ⟨.dimen name, v⟩ => .dimen name (some v)
  | ⟨.glue name, v⟩ => .glue name (some v)
  | ⟨.toks name, v⟩ => .toks name (some v)
  | ⟨.box name, v⟩ => .box name (some v)
  | ⟨.code name, v⟩ => .code name v
  | ⟨.active c, v⟩ => .active c v
  | ⟨.catcode c, v⟩ => .catcode c (some v)
  | ⟨.charCode t c, v⟩ => .charCode t c (some v)
  | ⟨.font, v⟩ => .font v
  | ⟨.color, v⟩ => .color v
  | ⟨.direction, v⟩ => .direction v

@[simp] theorem place_assignment (s : Setting μ) : s.assignment.place = s.place := by
  obtain ⟨p, v⟩ := s
  cases p <;> rfl

/-- The assignment of a call puts the value of the call to its place. -/
theorem update_assignment (s : Setting μ) (blank v : Valuation μ) :
    Function.update v s.assignment.place (s.assignment.content blank) =
      Function.update v s.place s.value := by
  obtain ⟨p, x⟩ := s
  cases p <;> rfl

end Setting

/-- What can happen to the groups of an environment.  A group is closed with or
    without a typesetter, which has to give the contents of a box group. -/
inductive ScopeOp (μ : Type) where
  | openGroup (type : GroupType) (locator : Locator) (start : Token)
  | closeGroup (typesetter : Option Recorder)
  | set (s : Setting μ) (global : Bool)

/-- The typesetter, if there is one, has a box to close when a group of the given
    type ends. -/
def GroupType.ClosesWith (type : GroupType) (typesetter : Option Recorder) : Prop :=
  type.isBox → ∀ r, typesetter = some r → r.closeBox?.isSome

namespace ScopeOp

variable {μ : Type}

/-- The operations can be performed where groups of the given types are open,
    innermost first: characters are Unicode scalar values, and boxes can be closed
    where box groups end. -/
def Admissible : List GroupType → List (ScopeOp μ) → Prop
  | _, [] => True
  | types, .openGroup type _ _ :: ops => Admissible (type :: types) ops
  | [], .closeGroup _ :: ops => Admissible [] ops
  | type :: types, .closeGroup ts :: ops => type.ClosesWith ts ∧ Admissible types ops
  | types, .set s _ :: ops => s.place.IsScalar ∧ Admissible types ops

/-- Runs operations one after the other, also behind those that fail.  The second
    part tells which of them failed. -/
def run {σ : Type} (step : σ → ScopeOp μ → Except Fault σ) :
    σ → List (ScopeOp μ) → σ × List (Option Fault)
  | s, [] => (s, [])
  | s, op :: ops =>
    match step s op with
    | .ok s' => ((run step s' ops).1, none :: (run step s' ops).2)
    | .error f => ((run step s ops).1, some f :: (run step s ops).2)

end ScopeOp

/-- Performs an operation on an environment. -/
def Env.perform {μ : Type} (nameOf : μ → String) (env : Env μ) : ScopeOp μ → Except Fault (Env μ)
  | .openGroup type locator start => .ok (env.openGroup type locator start none).1
  | .closeGroup ts => (env.closeGroup nameOf ts).map Env.Closing.env
  | .set s global => .ok (env.assign s.assignment global)

/-! ## Copies -/

/-- The contents of all places in the innermost group, and the copies that were
    made when the open groups began, innermost first. -/
structure Scopes (μ : Type) where
  current : Valuation μ
  outer : List (Valuation μ) := []

/-- Why a group cannot be closed if none is open. -/
def noOpenGroup : Fault :=
  .tex { kind := .tooManyRightBraces }

namespace Scopes

variable {μ : Type}

/-- Performs an operation on copies. -/
def perform (s : Scopes μ) : ScopeOp μ → Except Fault (Scopes μ)
  | .openGroup _ _ _ => .ok { current := s.current, outer := s.current :: s.outer }
  | .closeGroup _ =>
    match s.outer with
    | [] => .error noOpenGroup
    | v :: vs => .ok { current := v, outer := vs }
  | .set a false => .ok { s with current := Function.update s.current a.place a.value }
  | .set a true =>
    .ok { current := Function.update s.current a.place a.value,
          outer := s.outer.map fun v => Function.update v a.place a.value }

/-- The meaning of a control sequence or active character. -/
def meaning? (s : Scopes μ) (t : Token) : Option μ :=
  if t.isCs then s.current (.code t.name)
  else if t.isActive then s.current (.active t.code)
  else none

/-- The current attributes. -/
def attributes (s : Scopes μ) : Attributes :=
  { font := some (s.current .font), color := s.current .color,
    direction := s.current .direction }

end Scopes

/-! ## Undo lists -/

section Undo

variable {μ : Type}

/-- Assignments to scalar places have equal keys only if they have the same
    place. -/
theorem Assignment.key_eq_iff {a b : Assignment μ} (ha : a.place.IsScalar)
    (hb : b.place.IsScalar) : a.key = b.key ↔ a.place = b.place := by
  rw [key_eq_key_place, key_eq_key_place]
  exact ⟨Place.eq_of_key_eq ha hb, fun h => by rw [h]⟩

/-- Changing a place locally and remembering its content leads to the same contents
    when the group ends: either the content was remembered now, or an earlier
    change of the place was.  The group must not take another place for this one. -/
theorem Group.writeAll_save (g : Group μ) (old : Assignment μ) (blank v : Valuation μ)
    (p : Place) (x : p.Content μ) (hp : old.place = p)
    (hg : ∀ a ∈ g.undo, a.key = old.key → a.place = old.place)
    (hnow : old.content blank = v old.place) :
    Valuation.writeAll blank (Function.update v p x) (g.save old).undo =
      Valuation.writeAll blank v g.undo := by
  subst hp
  by_cases hseen : g.undo.any (·.key = old.key)
  · -- The first change of the place in this group was remembered; undoing it hides this one.
    rw [save, if_pos hseen]
    apply Valuation.writeAll_update_of_mem
    obtain ⟨a, ha, hkey⟩ := List.any_eq_true.mp hseen
    exact ⟨a, ha, hg a ha (by simpa using hkey)⟩
  · rw [save, if_neg hseen, Valuation.writeAll_cons, Function.update_idem, hnow,
      Function.update_eq_self]

/-- After a global change of a place, which the group then forgets, the contents at
    the end of the group differ by this change. -/
theorem Group.writeAll_purge (g : Group μ) (blank v : Valuation μ) (p : Place)
    (x : p.Content μ) (hg : ∀ a ∈ g.undo, a.place.IsScalar) (hp : p.IsScalar) :
    Valuation.writeAll blank (Function.update v p x) (g.purge p.key).undo =
      Function.update (Valuation.writeAll blank v g.undo) p x := by
  -- The group forgets by key; among scalar places that is to forget by place.
  have hundo : (g.purge p.key).undo = g.undo.filter (·.place ≠ p) := by
    apply List.filter_congr
    intro a ha
    have hkey : a.key = p.key ↔ a.place = p := by
      rw [Assignment.key_eq_key_place]
      exact ⟨Place.eq_of_key_eq (hg a ha) hp, fun h => by rw [h]⟩
    simp [hkey]
  rw [hundo, Valuation.writeAll_update_of_forall_ne _ _ _ _ _ (by simp),
    Valuation.update_writeAll_filter]

/-- The undo lists of the groups lead from the current contents to the copies. -/
def Tracks (blank : Valuation μ) : Valuation μ → List (Group μ) → List (Valuation μ) → Prop
  | _, [], [] => True
  | v, g :: gs, w :: ws =>
    g.deliver = none ∧ (∀ a ∈ g.undo, a.place.IsScalar) ∧
      Valuation.writeAll blank v g.undo = w ∧ Tracks blank w gs ws
  | _, _, _ => False

theorem Tracks.length_eq {blank v : Valuation μ} {gs : List (Group μ)}
    {ws : List (Valuation μ)} (h : Tracks blank v gs ws) : gs.length = ws.length := by
  induction gs generalizing v ws with
  | nil =>
    cases ws with
    | nil => rfl
    | cons w ws => exact h.elim
  | cons g gs ih =>
    cases ws with
    | nil => exact h.elim
    | cons w ws =>
      obtain ⟨-, -, -, hrest⟩ := h
      simp only [List.length_cons, ih hrest]

/-- A global change reaches all copies. -/
theorem Tracks.purge {blank v : Valuation μ} {gs : List (Group μ)} {ws : List (Valuation μ)}
    (h : Tracks blank v gs ws) (p : Place) (x : p.Content μ) (hp : p.IsScalar) :
    Tracks blank (Function.update v p x) (gs.map (·.purge p.key))
      (ws.map fun w => Function.update w p x) := by
  induction gs generalizing v ws with
  | nil =>
    cases ws with
    | nil => trivial
    | cons w ws => exact h.elim
  | cons g gs ih =>
    cases ws with
    | nil => exact h.elim
    | cons w ws =>
      obtain ⟨hdeliver, hscalar, hw, hrest⟩ := h
      refine ⟨hdeliver, ?_, ?_, ih hrest⟩
      · intro a ha
        exact hscalar a (List.mem_filter.mp ha).1
      · rw [Group.writeAll_purge g blank v p x hscalar hp, hw]

end Undo

/-! ## Refinement -/

section Refinement

variable {μ : Type}

/-- An environment and a stack of copies describe the same state. -/
structure Refines (env : Env μ) (s : Scopes μ) : Prop where
  current : env.lookup = s.current
  outer : Tracks env.blank s.current env.groups s.outer

/-- Look-ups do not depend on the groups. -/
theorem Env.lookup_withGroups (env : Env μ) (gs : List (Group μ)) :
    ({ env with groups := gs } : Env μ).lookup = env.lookup := by
  funext p
  cases p <;> rfl

@[simp] theorem Env.lookup_save (env : Env μ) (old : Assignment μ) :
    (env.save old).lookup = env.lookup := by
  unfold save
  split
  · rfl
  · exact lookup_withGroups env _

@[simp] theorem Env.blank_save (env : Env μ) (old : Assignment μ) :
    (env.save old).blank = env.blank := by
  unfold save
  split <;> rfl

/-- Saving only changes the innermost group, if there is one. -/
theorem Env.groups_save (env : Env μ) (old : Assignment μ) :
    (env.save old).groups =
      match env.groups with
      | [] => []
      | g :: gs => g.save old :: gs := by
  cases hgs : env.groups with
  | nil => simp only [save, hgs]
  | cons g gs => simp only [save, hgs]

/-- Remembering a place keeps the places that a group remembers scalar. -/
theorem Group.isScalar_of_mem_save {g : Group μ} {old a : Assignment μ}
    (hg : ∀ a ∈ g.undo, a.place.IsScalar) (hold : old.place.IsScalar)
    (ha : a ∈ (g.save old).undo) : a.place.IsScalar := by
  unfold save at ha
  split at ha
  · exact hg a ha
  · rcases List.mem_cons.mp ha with rfl | ha
    · exact hold
    · exact hg a ha

/-- Assignments keep the types of the open groups. -/
theorem Env.types_assign (env : Env μ) (a : Assignment μ) (global : Bool) :
    (env.assign a global).groups.map (·.type) = env.groups.map (·.type) := by
  cases global with
  | true =>
    show ((env.purge a.key).write a).groups.map (·.type) = _
    rw [groups_write]
    show (env.groups.map (·.purge a.key)).map (·.type) = _
    rw [List.map_map]
    rfl
  | false =>
    show ((env.save (env.current a)).write a).groups.map (·.type) = _
    rw [groups_write, groups_save]
    cases env.groups with
    | nil => rfl
    | cons g gs =>
      have htype : (g.save (env.current a)).type = g.type := by
        unfold Group.save
        split <;> rfl
      simp only [List.map_cons, htype]

/-- An assignment is seen at its place, whether it is local or global. -/
theorem Env.lookup_assign (env : Env μ) (a : Assignment μ) (global : Bool) :
    (env.assign a global).lookup =
      Function.update env.lookup a.place (a.content env.blank) := by
  cases global with
  | true =>
    show ((env.purge a.key).write a).lookup = _
    rw [lookup_write]
    exact congrArg (Function.update · a.place (a.content env.blank)) (lookup_withGroups env _)
  | false =>
    show ((env.save (env.current a)).write a).lookup = _
    rw [lookup_write, lookup_save, blank_save]

/-- A call that gives a place a value is seen at this place. -/
theorem Env.lookup_assign_setting (env : Env μ) (s : Setting μ) (global : Bool) :
    (env.assign s.assignment global).lookup = Function.update env.lookup s.place s.value := by
  rw [lookup_assign, s.update_assignment]

theorem Refines.openGroup {env : Env μ} {s : Scopes μ} (h : Refines env s) (type : GroupType)
    (locator : Locator) (start : Token) :
    Refines (env.openGroup type locator start none).1
      { current := s.current, outer := s.current :: s.outer } where
  current := (Env.lookup_withGroups env _).trans h.current
  outer := ⟨rfl, by simp, rfl, h.outer⟩

theorem Refines.setLocal {env : Env μ} {s : Scopes μ} (h : Refines env s) (a : Setting μ)
    (ha : a.place.IsScalar) :
    Refines (env.assign a.assignment false)
      { s with current := Function.update s.current a.place a.value } := by
  have hplace : (env.current a.assignment).place = a.place := by simp
  constructor
  · rw [Env.lookup_assign_setting, h.current]
  · show Tracks ((env.save (env.current a.assignment)).write a.assignment).blank _
      ((env.save (env.current a.assignment)).write a.assignment).groups _
    rw [Env.blank_write, Env.groups_write, Env.blank_save, Env.groups_save]
    have htracks := h.outer
    obtain ⟨cur, outer⟩ := s
    obtain rfl : env.lookup = cur := h.current
    -- Only the innermost group remembers the change; outside of all groups, nothing does.
    cases hgs : env.groups with
    | nil =>
      rw [hgs] at htracks
      cases outer with
      | nil => trivial
      | cons w ws => exact htracks.elim
    | cons g gs =>
      rw [hgs] at htracks
      cases outer with
      | nil => exact htracks.elim
      | cons w ws =>
        obtain ⟨hdeliver, hscalar, hw, hrest⟩ := htracks
        have hold : (env.current a.assignment).place.IsScalar := by rwa [hplace]
        refine ⟨?_, fun b => Group.isScalar_of_mem_save hscalar hold, ?_, hrest⟩
        · unfold Group.save
          split <;> exact hdeliver
        · have hkeys : ∀ b ∈ g.undo, b.key = (env.current a.assignment).key →
              b.place = (env.current a.assignment).place :=
            fun b hb => (Assignment.key_eq_iff (hscalar b hb) hold).mp
          rw [Group.writeAll_save g _ _ _ _ _ hplace hkeys (Env.content_current env _), hw]

theorem Refines.setGlobal {env : Env μ} {s : Scopes μ} (h : Refines env s) (a : Setting μ)
    (ha : a.place.IsScalar) :
    Refines (env.assign a.assignment true)
      { current := Function.update s.current a.place a.value,
        outer := s.outer.map fun v => Function.update v a.place a.value } where
  current := by
    rw [Env.lookup_assign_setting, h.current]
  outer := by
    show Tracks ((env.purge a.assignment.key).write a.assignment).blank _
      ((env.purge a.assignment.key).write a.assignment).groups _
    rw [Env.blank_write, Env.groups_write, Assignment.key_eq_key_place, Setting.place_assignment]
    exact h.outer.purge a.place a.value ha

/-- Without an open group, none can be closed. -/
theorem Env.closeGroup_of_nil {env : Env μ} (nameOf : μ → String) (ts : Option Recorder)
    (h : env.groups = []) : env.closeGroup nameOf ts = .error noOpenGroup := by
  unfold closeGroup
  rw [h]
  rfl

/-- A group that delivers no box ends by restoring what it changed. -/
theorem Env.closeGroup_of_cons {env : Env μ} (nameOf : μ → String) (ts : Option Recorder)
    {g : Group μ} {gs : List (Group μ)} (h : env.groups = g :: gs) (hdeliver : g.deliver = none)
    (hts : g.type.ClosesWith ts) :
    ∃ c, env.closeGroup nameOf ts = .ok c ∧ c.env = { env.restore g.undo with groups := gs } := by
  unfold closeGroup
  rw [h]
  cases hbox : g.type.isBox with
  | false => simp [hbox, hdeliver, bind, Except.bind, pure, Except.pure]
  | true =>
    cases ts with
    | none => simp [hbox, hdeliver, bind, Except.bind, pure, Except.pure]
    | some r =>
      obtain ⟨⟨b, r'⟩, hr⟩ := Option.isSome_iff_exists.mp (hts hbox r rfl)
      simp [hbox, hdeliver, hr, bind, Except.bind, pure, Except.pure]

theorem Refines.closeGroup {env : Env μ} {s : Scopes μ} (h : Refines env s) {g : Group μ}
    {gs : List (Group μ)} (hgs : env.groups = g :: gs) :
    ∃ w ws, s.outer = w :: ws ∧ g.deliver = none ∧
      Refines { env.restore g.undo with groups := gs } { current := w, outer := ws } := by
  have htracks := h.outer
  rw [hgs] at htracks
  cases houter : s.outer with
  | nil =>
    rw [houter] at htracks
    exact htracks.elim
  | cons w ws =>
    rw [houter] at htracks
    obtain ⟨hdeliver, -, hw, hrest⟩ := htracks
    refine ⟨w, ws, rfl, hdeliver, ?_, ?_⟩
    · rw [Env.lookup_withGroups, Env.lookup_restore, h.current, hw]
    · show Tracks (env.restore g.undo).blank w gs ws
      rw [Env.blank_restore]
      exact hrest

/-- One operation: the environment and the copies describe the same state
    afterwards, or both refuse for the same reason. -/
theorem Refines.perform {env : Env μ} {s : Scopes μ} (h : Refines env s) (nameOf : μ → String)
    (op : ScopeOp μ) (ops : List (ScopeOp μ))
    (hops : ScopeOp.Admissible (env.groups.map (·.type)) (op :: ops)) :
    (∃ env' s', env.perform nameOf op = .ok env' ∧ s.perform op = .ok s' ∧ Refines env' s' ∧
      ScopeOp.Admissible (env'.groups.map (·.type)) ops) ∨
    (∃ f, env.perform nameOf op = .error f ∧ s.perform op = .error f ∧
      ScopeOp.Admissible (env.groups.map (·.type)) ops) := by
  cases op with
  | openGroup type locator start =>
    exact Or.inl ⟨_, _, rfl, rfl, h.openGroup type locator start, hops⟩
  | set a global =>
    obtain ⟨ha, hops⟩ := hops
    rw [← Env.types_assign env a.assignment global] at hops
    cases global with
    | false => exact Or.inl ⟨_, _, rfl, rfl, h.setLocal a ha, hops⟩
    | true => exact Or.inl ⟨_, _, rfl, rfl, h.setGlobal a ha, hops⟩
  | closeGroup ts =>
    cases hgs : env.groups with
    | nil =>
      -- No group is open on either side, so both refuse and nothing changes.
      have hlength := h.outer.length_eq
      rw [hgs] at hops hlength
      have houter : s.outer = [] := List.length_eq_zero_iff.mp hlength.symm
      refine Or.inr ⟨noOpenGroup, ?_, ?_, hops⟩
      · rw [Env.perform, Env.closeGroup_of_nil nameOf ts hgs]
        rfl
      · simp only [Scopes.perform, houter]
    | cons g gs =>
      rw [hgs] at hops
      obtain ⟨hts, hops⟩ := hops
      obtain ⟨w, ws, houter, hdeliver, hrefines⟩ := h.closeGroup hgs
      obtain ⟨c, hclose, henv⟩ := Env.closeGroup_of_cons nameOf ts hgs hdeliver hts
      refine Or.inl ⟨_, _, ?_, ?_, hrefines, hops⟩
      · rw [Env.perform, hclose, ← henv]
        rfl
      · simp only [Scopes.perform, houter]

/-- Any number of operations: the states stay the same, and the same operations are
    refused. -/
theorem Refines.run {env : Env μ} {s : Scopes μ} (h : Refines env s) (nameOf : μ → String)
    (ops : List (ScopeOp μ)) (hops : ScopeOp.Admissible (env.groups.map (·.type)) ops) :
    Refines (ScopeOp.run (Env.perform nameOf) env ops).1 (ScopeOp.run Scopes.perform s ops).1 ∧
      (ScopeOp.run (Env.perform nameOf) env ops).2 = (ScopeOp.run Scopes.perform s ops).2 := by
  induction ops generalizing env s with
  | nil => exact ⟨h, rfl⟩
  | cons op ops ih =>
    -- A refused operation leaves both states as they are.
    rcases h.perform nameOf op ops hops with
      ⟨env', s', henv, hs, h', hops'⟩ | ⟨f, henv, hs, hops'⟩
    · obtain ⟨hstate, hfailures⟩ := ih h' hops'
      simp only [ScopeOp.run, henv, hs]
      exact ⟨hstate, by rw [hfailures]⟩
    · obtain ⟨hstate, hfailures⟩ := ih h hops'
      simp only [ScopeOp.run, henv, hs]
      exact ⟨hstate, by rw [hfailures]⟩

/-- Everything that can be observed of an environment is as the copies say.  A
    group can be closed exactly if one is open. -/
structure Agrees (nameOf : μ → String) (env : Env μ) (s : Scopes μ) : Prop where
  lookup : env.lookup = s.current
  meaning : ∀ t, env.meaning? t = s.meaning? t
  attributes : env.attributes = s.attributes
  level : env.level = s.outer.length
  closes : ∀ ts, (∀ g, env.groups.head? = some g → g.type.ClosesWith ts) →
    (env.closeGroup nameOf ts = .error noOpenGroup ↔ env.level = 0) ∧
      ((∃ c, env.closeGroup nameOf ts = .ok c) ↔ env.level ≠ 0)

theorem Refines.agrees {env : Env μ} {s : Scopes μ} (h : Refines env s) (nameOf : μ → String) :
    Agrees nameOf env s where
  lookup := h.current
  meaning t := by
    unfold Env.meaning? Scopes.meaning?
    rw [← h.current]
    rfl
  attributes := by
    unfold Env.attributes Scopes.attributes
    rw [← h.current]
    rfl
  level := h.outer.length_eq
  closes ts hts := by
    cases hgs : env.groups with
    | nil => simp [Env.closeGroup_of_nil nameOf ts hgs, Env.level, hgs]
    | cons g gs =>
      obtain ⟨-, -, -, hdeliver, -⟩ := h.closeGroup hgs
      obtain ⟨c, hc, -⟩ :=
        Env.closeGroup_of_cons nameOf ts hgs hdeliver (hts g (by rw [hgs]; rfl))
      simp [hc, Env.level, hgs]

/-- The initial environment has no groups, and its contents are the only copy. -/
theorem Refines.initial (preset : Preset) (unicodeLetters : Bool) :
    Refines (Env.initial preset unicodeLetters : Env μ)
      { current := (Env.initial preset unicodeLetters).lookup } :=
  ⟨rfl, trivial⟩

/-- After every sequence of operations on a new environment, all look-ups, the
    number of open groups and the outcome of closing a further group are those of the
    copies, and the same operations of the sequence have failed. -/
theorem run_agrees_with_copies (preset : Preset) (unicodeLetters : Bool) (nameOf : μ → String)
    (ops : List (ScopeOp μ)) (hops : ScopeOp.Admissible [] ops) :
    let result := ScopeOp.run (Env.perform nameOf) (Env.initial preset unicodeLetters) ops
    let copies := ScopeOp.run Scopes.perform
      { current := (Env.initial preset unicodeLetters).lookup } ops
    Agrees nameOf result.1 copies.1 ∧ result.2 = copies.2 := by
  obtain ⟨hstate, hfailures⟩ := (Refines.initial preset unicodeLetters).run nameOf ops hops
  exact ⟨hstate.agrees nameOf, hfailures⟩

end Refinement

/-- Two nested groups, the inner one for a box; a register is set in both of them and
    globally, a category code globally, and one group too many is closed. -/
def nestedOps : List (ScopeOp String) :=
  [.openGroup .simple {} (.char 123 .beginGroup),
   .set ⟨.count "1", (5 : Int64)⟩ false,
   .openGroup .hbox {} (.char 123 .beginGroup),
   .set ⟨.count "1", (6 : Int64)⟩ false,
   .set ⟨.count "1", (7 : Int64)⟩ true,
   .set ⟨.count "1", (8 : Int64)⟩ false,
   .set ⟨.catcode 0x10FFFF, Catcode.active⟩ true,
   .closeGroup (some (({} : Recorder).openBox .horizontal .natural)),
   .closeGroup none,
   .closeGroup none]

theorem run_agrees_with_copies_nested :
    ScopeOp.Admissible [] nestedOps ∧
      let result := ScopeOp.run (Env.perform id) (Env.initial .plain true) nestedOps
      let copies := ScopeOp.run Scopes.perform { current := (Env.initial .plain true).lookup }
        nestedOps
      Agrees id result.1 copies.1 ∧ result.2 = copies.2 := by
  have hadmissible : ScopeOp.Admissible [] nestedOps := by
    simp [nestedOps, ScopeOp.Admissible, Place.IsScalar, CharCode.IsScalar,
      GroupType.ClosesWith, Recorder.closeBox?, Recorder.openBox]
  exact ⟨hadmissible, run_agrees_with_copies .plain true id nestedOps hadmissible⟩

end TexEngine
