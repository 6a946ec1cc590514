/-
  TexEngine.Proofs.Format.Dumping

  What can be stored.  A format has a place for macros, for characters, for registers and
  for fonts; any other meaning is stored by its name only, and so it has to be the
  primitive with this name.  All meanings that an engine ever binds are of one of these
  kinds, also if it has loaded formats that were not written by an engine.  Therefore the
  check that is made when a format is stored never fails, and the only thing that can
  prevent it is an open group.
-/
import TexEngine.Proofs.Engine.History.Execute
import TexEngine.Proofs.Format.Restoring

namespace TexEngine

/-! ## Storable environments -/

/-- The meaning that is assigned, if any, can be stored. -/
def Assignment.IsStorable (a : Assignment Meaning) : Prop :=
  ∀ μ ∈ a.meaning?, μ.isStorable

/-- All meanings that are bound, or will be again at the end of a group, can be stored. -/
def Env.Storable (env : Env Meaning) : Prop :=
  env.Holds Assignment.IsStorable fun _ => True

theorem Meaning.IsMade.isStorable {μ : Meaning} (h : μ.IsMade) : μ.isStorable := by
  -- Of the primitives, only \relax is made.
  have hrelax : relax.isStorable := (wellFormed_relax 0).isStorable
  cases μ with
  | defined d => rfl
  | charToken t => rfl
  | charDef c => rfl
  | register bank i => rfl
  | font f => rfl
  | _ =>
    have hrelaxed : _ = relax := h
    exact hrelaxed ▸ hrelax

/-- What is read back from a format can be stored. -/
theorem Binding.isStorable_of_toMeaning {b : Binding} {fonts fonts' : FontBook}
    {known known' : FontNames} {μ : Meaning}
    (h : b.toMeaning fonts known = .ok (μ, fonts', known')) : μ.isStorable := by
  unfold toMeaning at h
  split at h
  · -- The table of primitives is not looked into as long as what it gives is a variable.
    obtain ⟨μ?, hname⟩ : ∃ μ?, Meaning.primitive? b.name = μ? := ⟨_, rfl⟩
    rw [hname] at h
    cases μ? with
    | none => cases h
    | some μ' =>
      obtain rfl : μ' = μ := congrArg Prod.fst (Except.ok.inj h)
      exact (Meaning.wellFormed_of_primitive? hname : μ'.WellFormed 0).isStorable
  -- The other kinds of bindings denote what they hold: macros, characters, aliases and fonts.
  · split at h
    · cases h; rfl
    · split at h
      · cases h; rfl
      · split at h
        · cases h; rfl
        · split at h
          · split at h
            · cases h; rfl
            · contradiction
          · split at h
            · split at h
              · cases h; rfl
              · cases h; rfl
            · contradiction

namespace Env.Storable

variable {env env' : Env Meaning}

theorem of_binds (h : env.Storable) {μ : Meaning} (hμ : env.Binds μ) : μ.isStorable := by
  rcases hμ with ⟨name, hname⟩ | ⟨c, hc⟩
  · exact h.current (.code name none) μ hname
  · exact h.current (.active c none) μ hc

/-- What matters is what is bound, and what groups will restore. -/
theorem of_eq (h : env.Storable) (hcodes : env'.codes = env.codes)
    (hactive : env'.active = env.active)
    (hgroups : env'.groups = env.groups) : env'.Storable where
  current a := by
    cases a with
    | code name v =>
      show ∀ μ ∈ env'.codes[name]?, μ.isStorable
      rw [hcodes]
      exact h.current (.code name v)
    | active c v =>
      show ∀ μ ∈ env'.active[c]?, μ.isStorable
      rw [hactive]
      exact h.current (.active c v)
    | _ => exact fun _ hμ => by contradiction
  undo := hgroups ▸ h.undo
  afterTokens := fun _ _ _ _ => True.intro
  afterAssignment := fun _ _ => True.intro

/-- Outside of all groups, it is what is bound now that matters. -/
theorem of_bound (hcodes : ∀ (name : String) μ, env.codes[name]? = some μ → μ.isStorable)
    (hactive : ∀ (c : Int) μ, env.active[c]? = some μ → μ.isStorable)
    (hgroups : env.groups = []) : env.Storable where
  current a := by
    cases a with
    | code name v => exact hcodes name
    | active c v => exact hactive c
    | _ => exact fun _ hμ => by contradiction
  undo := by simp [hgroups]
  afterTokens := fun _ _ _ _ => True.intro
  afterAssignment := fun _ _ => True.intro

theorem assign (h : env.Storable) {a : Assignment Meaning} (ha : a.IsStorable) (global : Bool) :
    (env.assign a global).Storable :=
  Holds.assign h ha global

theorem assign_box (h : env.Storable) (name : String) (b : Option (Option Box)) (global : Bool) :
    (env.assign (.box name b) global).Storable :=
  h.assign (fun _ hμ => by contradiction) global

theorem relaxes (h : env.Storable) {names : List String} (hrelax : env.Relaxes names env') :
    env'.Storable := by
  induction hrelax with
  | refl => exact h
  | relax _ _ ih =>
    refine ih.assign (fun μ hμ => ?_) false
    have hmade : Meaning.relax.IsMade := rfl
    exact Option.mem_some.mp hμ ▸ hmade.isStorable
  | conditionals _ cs ih => exact ih.of_eq rfl rfl rfl

theorem fetchBox (h : env.Storable) (name : String) (keep : Bool) :
    (env.fetchBox name keep).Storable := by
  unfold Env.fetchBox
  split
  · exact h.assign_box ..
  · exact h

end Env.Storable

/-! ## Storable machines -/

/-- No change brings a meaning that cannot be stored. -/
theorem Machine.Change.storable {m m' : Machine} {events : List BoxEvent}
    (hchange : m.Change events m') (h : m.env.Storable) : m'.env.Storable := by
  cases hchange with
  | expand hexpands =>
    obtain ⟨names, hnames⟩ := hexpands.env
    exact h.relaxes hnames
  | rest hsame => exact h.of_eq hsame.codes hsame.active hsame.groups
  | assign a global hbox hmeaning =>
    refine h.assign (fun μ hμ => ?_) global
    rcases hmeaning μ hμ with hbinds | hmade
    · exact h.of_binds hbinds
    · exact hmade.isStorable
  | afterGroup t => exact Env.Holds.afterGroup h True.intro
  | openGroup type locator start htype => exact Env.Holds.openGroup h ..
  | openBox kind spec locator start deliver => exact Env.Holds.openGroup h ..
  | closeGroup hgroups hbox hclose =>
    exact (Env.Holds.closeGroup h (fun _ _ _ hμ => by contradiction) hclose).1
  | typeset n hbox => exact h
  | useBox name keep hbox => exact h.fetchBox name keep
  | moveBox source keep target global => exact (h.fetchBox source keep).assign_box ..

theorem Machine.History.storable {m m' : Machine} {steps : List Machine.Step}
    (hsteps : m.History steps m') (h : m.env.Storable) : m'.env.Storable := by
  induction hsteps with
  | refl => exact h
  | step _ hchange ih => exact hchange.storable ih

/-- What every step of a walk keeps, the whole walk keeps. -/
theorem Image.foldlM_keeps {α β ε : Type} {step : β → α → Except ε β} {P : β → Prop}
    (hstep : ∀ b a b', P b → step b a = .ok b' → P b') {l : List α} {b b' : β} (hb : P b)
    (h : l.foldlM step b = .ok b') : P b' := by
  induction l generalizing b with
  | nil =>
    injection h with h
    exact h ▸ hb
  | cons a l ih =>
    rw [List.foldlM_cons] at h
    cases hread : step b a with
    | error e =>
      rw [hread] at h
      contradiction
    | ok b₁ =>
      rw [hread] at h
      exact ih (hstep b a b₁ hb hread) h

/-- The meanings of a table that was read back. -/
theorem Image.isStorable_of_decodeBindings {κ : Type} {cmp : κ → κ → Ordering} [Std.TransCmp cmp]
    [Std.LawfulEqCmp cmp] {label : κ → String} {fonts : FontBook} {known : Binding.FontNames}
    {bs : Std.TreeMap κ Binding cmp} {d : Decoding κ cmp}
    (h : decodeBindings label fonts known bs = .ok d) :
    ∀ (k : κ) μ, d.meanings[k]? = some μ → μ.isStorable := by
  rw [decodeBindings, Std.TreeMap.foldlM_eq_foldlM_toList] at h
  have hstart : ∀ (k : κ) μ,
      (∅ : Std.TreeMap κ Meaning cmp)[k]? = some μ → μ.isStorable := by
    simp
  refine foldlM_keeps (P := fun d : Decoding κ cmp =>
    ∀ (k : κ) μ, d.meanings[k]? = some μ → μ.isStorable) (fun d₀ e d₁ hd₀ hdecode => ?_) hstart h
  cases hread : e.2.toMeaning d₀.fonts d₀.known with
  | error reason =>
    rw [hread] at hdecode
    contradiction
  | ok r =>
    obtain ⟨μ, fonts', known'⟩ := r
    rw [hread] at hdecode
    injection hdecode with hdecode
    subst hdecode
    intro k μ' hμ'
    rw [Std.TreeMap.getElem?_insert] at hμ'
    split at hμ'
    · injection hμ' with hμ'
      exact hμ' ▸ Binding.isStorable_of_toMeaning hread
    · exact hd₀ k μ' hμ'

/-- What a format says, if it can be decoded: the bindings are those that were read. -/
theorem Image.of_toSnapshot {img : Image} {fonts fonts' : FontBook} {s : Snapshot Meaning}
    (h : img.toSnapshot fonts = .ok (s, fonts')) :
    ∃ codes active,
      decodeBindings (fun name => "\\" ++ name) fonts ∅ img.codes = .ok codes ∧
      decodeBindings (fun c => "active " ++ Text.Quoted.code c) codes.fonts codes.known
        img.active = .ok active ∧
      s = img.copy codes active ∧ fonts' = active.fonts := by
  obtain ⟨codes, hcodes, h⟩ := exists_of_bind_ok h
  obtain ⟨active, hactive, h⟩ := exists_of_bind_ok h
  obtain ⟨rfl, rfl⟩ := Prod.mk.inj (Except.ok.inj h)
  exact ⟨codes, active, hcodes, hactive, rfl, rfl⟩

/-- Loading decodes all bindings, and puts them in front of what is bound already. -/
theorem Machine.load_eq_ok {m m' : Machine} {img : Image} (hload : m.load img = .ok m') :
    ∃ codes active env', m.env.groups = [] ∧
      Image.decodeBindings (fun name => "\\" ++ name) m.env.fonts ∅ img.codes = .ok codes ∧
      Image.decodeBindings (fun c => "active " ++ Text.Quoted.code c) codes.fonts codes.known
        img.active = .ok active ∧
      m.env.Overlaid (img.copy codes active) env' ∧ env'.groups = [] ∧
      m'.env = { env' with fonts := active.fonts } := by
  obtain ⟨⟨s, fonts⟩, hsnapshot, hload⟩ := exists_of_bind_ok hload
  obtain ⟨env', hrestore, hload⟩ := exists_of_bind_ok hload
  obtain rfl := Except.ok.inj hload
  obtain ⟨codes, active, hcodes, hactive, rfl, rfl⟩ := Image.of_toSnapshot hsnapshot
  obtain ⟨hgroups, hgroups', hover⟩ := Env.of_restoreSnapshot hrestore
  exact ⟨codes, active, env', hgroups, hcodes, hactive, hover, hgroups', rfl⟩

/-- A format that was loaded brings only meanings that can be stored again. -/
theorem Machine.storable_load {m m' : Machine} {img : Image} (hload : m.load img = .ok m')
    (h : m.env.Storable) : m'.env.Storable := by
  obtain ⟨codes, active, env', -, hcodes, hactive, hover, hgroups, henv⟩ := load_eq_ok hload
  rw [henv]
  -- What is bound comes from the format or was bound before.
  refine .of_bound (fun name μ hμ => ?_) (fun c μ hμ => ?_) hgroups
  · have hname := (hover.codes name).symm.trans hμ
    rcases Option.or_eq_some_iff.mp hname with hread | ⟨-, hold⟩
    · exact Image.isStorable_of_decodeBindings hcodes name μ hread
    · exact h.of_binds (.inl ⟨name, hold⟩)
  · have hc := (hover.active c).symm.trans hμ
    rcases Option.or_eq_some_iff.mp hc with hread | ⟨-, hold⟩
    · exact Image.isStorable_of_decodeBindings hactive c μ hread
    · exact h.of_binds (.inr ⟨c, hold⟩)

/-- Loading changes nothing but what the format says, apart from the log. -/
theorem Eng.load_of_undump {m m' : Machine} {img : Image} (hundump : undump img m = .ok () m') :
    ∃ m₁, m.load img = .ok m₁ ∧ m'.env = m₁.env := by
  simp only [undump, bind_of_ok (get_apply m)] at hundump
  cases hload : m.load img with
  | error f =>
    rw [hload] at hundump
    contradiction
  | ok m₁ =>
    rw [hload] at hundump
    have hset : (set m₁ : Eng Unit) m = .ok () m₁ := rfl
    dsimp only at hundump
    rw [bind_of_ok hset, trace_apply] at hundump
    injection hundump with _ hm'
    exact ⟨m₁, rfl, hm' ▸ rfl⟩

theorem Eng.storable_undump {m m' : Machine} {img : Image} (hundump : undump img m = .ok () m')
    (h : m.env.Storable) : m'.env.Storable := by
  obtain ⟨m₁, hload, henv⟩ := load_of_undump hundump
  rw [henv]
  exact Machine.storable_load hload h

/-! ## Storing succeeds -/

namespace Setup

variable {s : Setup} {m : Machine}

/-- The states that the engine can get into if it may also load formats, whoever made
    them. -/
inductive Visits (s : Setup) : Machine → Prop where
  | start : Visits s s.machine
  | pushText {m : Machine} (h : Visits s m) (text name : String) :
      Visits s ((Eng.pushText text name).after m)
  | run {m : Machine} (h : Visits s m) (fuel : Nat) : Visits s ((Eng.run fuel).after m)
  | undump {m m' : Machine} (h : Visits s m) (img : Image)
      (hundump : Eng.undump img m = .ok () m') : Visits s m'

theorem storable_machine (s : Setup) : s.machine.env.Storable := by
  refine .of_bound (fun name μ hμ => ?_) (fun c μ hμ => ?_) rfl
  · exact ((holds_machine s 0).current (.code name none) μ hμ).isStorable
  · exact ((holds_machine s 0).current (.active c none) μ hμ).isStorable

theorem Reaches.visits (h : s.Reaches m) : s.Visits m := by
  induction h with
  | start => exact .start
  | pushText h text name ih => exact ih.pushText text name
  | run h fuel ih => exact ih.run fuel

/-- In all states that the engine gets into, everything that is bound can be stored. -/
theorem Visits.storable (h : s.Visits m) : m.env.Storable := by
  induction h with
  | start => exact storable_machine s
  | pushText h text name ih =>
    obtain ⟨steps, hsteps⟩ := (Eng.pushText_recorded text name).history _
    exact hsteps.storable ih
  | run h fuel ih =>
    obtain ⟨steps, hsteps⟩ := (Eng.run_recorded fuel).history _
    exact hsteps.storable ih
  | undump h img hundump ih => exact Eng.storable_undump hundump ih

end Setup

/-- In every state that an engine gets into, all meanings can be stored; a format can be
    stored exactly if no group is open, and an open group is the reason if it cannot. -/
theorem Setup.Visits.dump_succeeds_outside_of_groups {s : Setup} {m : Machine} (h : s.Visits m) :
    ((∃ img m', Eng.dump m = .ok img m') ↔ m.env.groups = []) ∧
      (m.env.groups ≠ [] → Eng.dump m = .error (.tex { kind := .dumpInGroup }) m) ∧
      (m.env.groups = [] →
        ∃ m', Eng.dump m = .ok (Image.ofSnapshot m.jobName m.env.fonts m.env.copy) m') ∧
      ∀ μ, m.env.Binds μ → μ.isStorable := by
  have hstorable : ∀ μ, m.env.Binds μ → μ.isStorable := fun μ => h.storable.of_binds
  have hclosed : m.env.groups = [] →
      ∃ m', Eng.dump m = .ok (Image.ofSnapshot m.jobName m.env.fonts m.env.copy) m' :=
    fun hgroups => Eng.exists_dump (List.isEmpty_iff.mpr hgroups) hstorable
  have hopen : m.env.groups ≠ [] → Eng.dump m = .error (.tex { kind := .dumpInGroup }) m := by
    intro hgroups
    have hbottom : ¬ m.env.atBottom = true := fun h => hgroups (List.isEmpty_iff.mp h)
    simp only [Eng.dump, Eng.bind_of_ok (Eng.get_apply m), Env.snapshot, if_neg hbottom]
    rfl
  refine ⟨⟨?_, fun hgroups => ?_⟩, hopen, hclosed, hstorable⟩
  · rintro ⟨img, m', hok⟩
    by_contra hgroups
    rw [hopen hgroups] at hok
    contradiction
  · obtain ⟨m', hm'⟩ := hclosed hgroups
    exact ⟨_, m', hm'⟩

/-- A copy of a primitive can be stored. -/
theorem Setup.Visits.dump_succeeds_outside_of_groups_copy :
    ∃ img m', Eng.dump (Setup.afterText "\\let\\a=\\hbox") = .ok img m' := by
  have hvisits := (Setup.reaches_afterText "\\let\\a=\\hbox").visits
  have hbottom : (Setup.afterText "\\let\\a=\\hbox").env.groups = [] :=
    List.isEmpty_iff.mp (by decide +kernel)
  exact hvisits.dump_succeeds_outside_of_groups.1.mpr hbottom

end TexEngine
