/-
  TexEngine.Proofs.Format.Restoring

  Storing the state of an engine as a format, and loading the format into a fresh engine.
  Outside of all groups both succeed, and each table of the fresh engine is compared with
  that of the engine whose state was stored.
-/
import TexEngine.Proofs.Engine.Jobs
import TexEngine.Proofs.Format.Decoding

namespace TexEngine

open Binding

/-! ## Images -/

theorem Meaning.WellFormed.isStorable {n : Nat} {μ : Meaning} (h : μ.WellFormed n) :
    μ.isStorable := by
  cases μ with
  | defined d => rfl
  | charToken t => rfl
  | charDef c => rfl
  | register bank i => rfl
  | font f => rfl
  | _ => exact beq_iff_eq.mpr h

theorem Preset.text_ne_empty (p : Preset) : p.text.isEmpty = false := by
  cases p <;> rfl

theorem Preset.ofName_text (p : Preset) : ofName p.text = p := by
  cases p <;> rfl

theorem Binding.restored?_of_primitive? {name : String} {μ : Meaning}
    (h : Meaning.primitive? name = some μ) (known : FontNames) : restored? known μ = some μ := by
  cases μ with
  | font f => exact if_pos (Meaning.eq_null_of_primitive? h)
  | _ => rfl

theorem Meaning.isPrimitive_iff {μ : Meaning} {name : String} :
    μ.isPrimitive name = true ↔ primitive? name = some μ := by
  rw [isPrimitive, beq_iff_eq]

namespace Image

/-- The stored form of the control sequences, if all of their meanings can be stored. -/
def bindings (fonts : FontBook) (codes : Std.TreeMap String Meaning) : Std.TreeMap String Binding :=
  codes.foldl (fun acc name μ =>
    if μ.isPrimitive name then acc else acc.insert name (ofMeaning fonts μ)) ∅

/-- The image of a snapshot, if all of its meanings can be stored. -/
def ofSnapshot (job : String) (fonts : FontBook) (s : Snapshot Meaning) : Image :=
  withBindings job s (bindings fonts s.codes)
    (s.active.foldl (fun acc c μ => acc.insert c (ofMeaning fonts μ)) ∅)

/-- A walk in which no step fails. -/
theorem foldlM_eq_ok {α β ε : Type} {step : β → α → Except ε β} {f : β → α → β} {l : List α}
    (h : ∀ a ∈ l, ∀ b, step b a = .ok (f b a)) (b : β) :
    l.foldlM step b = .ok (l.foldl f b) := by
  induction l generalizing b with
  | nil => rfl
  | cons a l ih =>
    rw [List.forall_mem_cons] at h
    rw [List.foldlM_cons, h.1, List.foldl_cons]
    exact ih h.2 (f b a)

theorem bindings?_eq_ok {κ : Type} {cmp : κ → κ → Ordering} [Std.TransCmp cmp]
    [Std.LawfulEqCmp cmp] (label : κ → String) (skip : κ → Meaning → Bool) (fonts : FontBook)
    {meanings : Std.TreeMap κ Meaning cmp} (h : ∀ (k : κ) μ, meanings[k]? = some μ → μ.isStorable) :
    bindings? label skip fonts meanings =
      .ok (meanings.foldl (fun acc k μ =>
        if skip k μ then acc else acc.insert k (ofMeaning fonts μ)) ∅) := by
  rw [bindings?, Std.TreeMap.foldlM_eq_foldlM_toList, Std.TreeMap.foldl_eq_foldl_toList]
  refine foldlM_eq_ok (fun e he acc => ?_) ∅
  have hstorable := h e.1 e.2 (Std.TreeMap.mem_toList_iff_getElem?_eq_some.mp he)
  rw [ofMeaning?, if_pos hstorable]
  dsimp only
  split <;> rfl

theorem ofSnapshot?_eq_ok (job : String) (fonts : FontBook) {s : Snapshot Meaning}
    (hcodes : ∀ (name : String) μ, s.codes[name]? = some μ → μ.isStorable)
    (hactive : ∀ (c : Int) μ, s.active[c]? = some μ → μ.isStorable) :
    ofSnapshot? job fonts s = .ok (ofSnapshot job fonts s) := by
  simp only [ofSnapshot?, bindings?_eq_ok _ _ fonts hcodes, bindings?_eq_ok _ _ fonts hactive,
    bind, Except.bind, pure, Except.pure]
  rfl

/-- What is stored for a control sequence: its meaning, unless it is a primitive with its
    own meaning. -/
theorem getElem?_bindings (fonts : FontBook) (codes : Std.TreeMap String Meaning)
    (name : String) :
    (bindings fonts codes)[name]? = codes[name]?.bind fun μ =>
      if μ.isPrimitive name then none else some (ofMeaning fonts μ) := by
  rw [bindings, Env.getElem?_foldl_unless fun name μ => Meaning.isPrimitive μ name]

/-- What is stored for an active character: its meaning. -/
theorem getElem?_active (job : String) (fonts : FontBook) (s : Snapshot Meaning) (c : Int) :
    (ofSnapshot job fonts s).active[c]? = s.active[c]?.map (ofMeaning fonts) := by
  have hfold : (ofSnapshot job fonts s).active =
      s.active.foldl (Env.insertSome fun _ μ => some (ofMeaning fonts μ)) ∅ := rfl
  rw [hfold, Env.getElem?_foldl_insertSome, Std.TreeMap.getElem?_emptyc, Option.or_none]
  exact Option.map_eq_bind.symm

section Decoding

variable {env : Env Meaning} {fonts : FontBook} {job : String}

theorem stores_of_binds (henv : env.WellFormed env.fonts.next) {μ : Meaning} (hμ : env.Binds μ) :
    Stores env.fonts (fun f => env.Binds (.font f)) (ofMeaning env.fonts μ) μ := by
  refine ⟨rfl, henv.of_binds hμ, ?_⟩
  rintro f rfl
  exact hμ

theorem exists_stores_of_codes (henv : env.WellFormed env.fonts.next) (name : String) (b : Binding)
    (hb : (ofSnapshot job env.fonts env.copy).codes[name]? = some b) :
    ∃ μ, env.code? name = some μ ∧
      Stores env.fonts (fun f => env.Binds (.font f)) b μ := by
  have hname := (getElem?_bindings env.fonts env.codes name).symm.trans hb
  obtain ⟨μ, hμ, hb⟩ := Option.bind_eq_some_iff.mp hname
  split at hb
  · exact absurd hb (Option.some_ne_none b).symm
  · obtain rfl := Option.some.inj hb
    exact ⟨μ, hμ, stores_of_binds henv (.inl ⟨name, hμ⟩)⟩

theorem exists_stores_of_active (henv : env.WellFormed env.fonts.next) (c : Int) (b : Binding)
    (hb : (ofSnapshot job env.fonts env.copy).active[c]? = some b) :
    ∃ μ, env.active? c = some μ ∧
      Stores env.fonts (fun f => env.Binds (.font f)) b μ := by
  have hc := (getElem?_active job env.fonts env.copy c).symm.trans hb
  obtain ⟨μ, hμ, rfl⟩ := Option.map_eq_some_iff.mp hc
  exact ⟨μ, hμ, stores_of_binds henv (.inr ⟨c, hμ⟩)⟩

/-- All bindings of an environment are read back.  A control sequence that is not stored
    is a primitive with its own meaning, or has none. -/
theorem exists_decode (henv : env.WellFormed env.fonts.next) (hfonts : fonts.Complete)
    (label : String → String) (label' : Int → String) (job : String) :
    ∃ (codes : Decoding String compare) (active : Decoding Int compare),
      decodeBindings label fonts ∅ (ofSnapshot job env.fonts env.copy).codes = .ok codes ∧
      decodeBindings label' codes.fonts codes.known (ofSnapshot job env.fonts env.copy).active =
        .ok active ∧
      Restores env.fonts (fun f => env.Binds (.font f)) active.fonts active.known ∧
      (∀ name μ, env.code? name = some μ → ∃ μ', restored? active.known μ = some μ' ∧
        (codes.meanings[name]?).or (Meaning.primitive? name) = some μ') ∧
      (∀ name, env.code? name = none → codes.meanings[name]? = none) ∧
      (∀ c μ, env.active? c = some μ → ∃ μ', restored? active.known μ = some μ' ∧
        active.meanings[c]? = some μ') ∧
      ∀ c, env.active? c = none → active.meanings[c]? = none := by
  have hcode : ∀ name, (ofSnapshot job env.fonts env.copy).codes[name]? =
      (env.code? name).bind fun μ =>
        if μ.isPrimitive name then none else some (ofMeaning env.fonts μ) :=
    getElem?_bindings env.fonts env.codes
  have hchar : ∀ c, (ofSnapshot job env.fonts env.copy).active[c]? =
      (env.active? c).map (ofMeaning env.fonts) :=
    getElem?_active job env.fonts env.copy
  -- Active characters are read back last, with the fonts of the control sequences.
  obtain ⟨codes, hcodesRead, hcodesFonts, -, hcodesMem, hcodesNone⟩ :=
    exists_decodeBindings henv.fonts label env.code? (exists_stores_of_codes henv)
      (restores_empty hfonts)
  obtain ⟨active, hactiveRead, hactiveFonts, hextends, hactiveMem, hactiveNone⟩ :=
    exists_decodeBindings henv.fonts label' env.active? (exists_stores_of_active henv)
      hcodesFonts
  refine ⟨codes, active, hcodesRead, hactiveRead, hactiveFonts, fun name μ hμ => ?_,
    fun name hname => ?_, fun c μ hμ => ?_, fun c hc => ?_⟩
  · by_cases hprimitive : μ.isPrimitive name
    · have hnone : codes.meanings[name]? = none := by
        apply hcodesNone
        rw [hcode, hμ, Option.bind_some, if_pos hprimitive]
      have hname := Meaning.isPrimitive_iff.mp hprimitive
      exact ⟨μ, restored?_of_primitive? hname _, by rw [hnone, Option.none_or, hname]⟩
    · obtain ⟨μ', hrestored, hread⟩ := hcodesMem name (ofMeaning env.fonts μ) μ
        (by rw [hcode, hμ, Option.bind_some, if_neg hprimitive]) hμ
      exact ⟨μ', hextends.restored? hrestored, by rw [hread, Option.some_or]⟩
  · apply hcodesNone
    rw [hcode, hname, Option.bind_none]
  · exact hactiveMem c (ofMeaning env.fonts μ) μ (by rw [hchar, hμ, Option.map_some]) hμ
  · apply hactiveNone
    rw [hchar, hc, Option.map_none]

end Decoding

end Image

/-! ## Storing and loading -/

/-- The copy that an image gives, once its bindings have been read back. -/
def Image.copy (img : Image) (codes : Decoding String compare) (active : Decoding Int compare) :
    Snapshot Meaning :=
  { preset := img.preset, catcodes := img.catcodes,
    tables := fun t => img.tables.getD t.text ∅,
    counts := img.counts, dimens := img.dimens, glues := img.glues, toks := img.toks,
    codes := codes.meanings, active := active.meanings,
    font := if img.font.isEmpty then none else active.known[img.font]? }

section Copy

variable (job : String) (env : Env Meaning) (codes : Image.Decoding String compare)
  (active : Image.Decoding Int compare)

theorem Image.tables_copy (t : CodeTable) :
    ((ofSnapshot job env.fonts env.copy).copy codes active).tables t = env.table t := by
  cases t <;> rfl

/-- The current font is stored under the name by which it was defined. -/
theorem Image.font_copy :
    ((ofSnapshot job env.fonts env.copy).copy codes active).font.getD Font.null =
      if env.font.id = "" then Font.null else standIn active.known env.font := by
  have hname : (ofSnapshot job env.fonts env.copy).font =
      if env.font = Font.null then "" else env.font.id := by
    show ((some env.font).filter (· ≠ Font.null)).elim "" Font.id = _
    rw [Option.filter_some]
    by_cases hnull : env.font = Font.null
    · simp [hnull]
    · simp [hnull]
  rw [copy, hname, standIn]
  by_cases hnull : env.font = Font.null
  · rw [if_pos hnull, if_pos hnull, ite_self]
    rfl
  · rw [if_neg hnull, if_neg hnull]
    simp only [String.isEmpty_iff]
    split <;> rfl

end Copy

namespace Eng

variable {m : Machine}

/-- Outside of all groups, a state is stored if all that is bound in it can be stored. -/
theorem exists_dump (h : m.env.atBottom = true)
    (hstorable : ∀ μ, m.env.Binds μ → μ.isStorable) :
    ∃ m', dump m = .ok (Image.ofSnapshot m.jobName m.env.fonts m.env.copy) m' := by
  have himage : Image.ofSnapshot? m.jobName m.env.fonts m.env.copy =
      .ok (Image.ofSnapshot m.jobName m.env.fonts m.env.copy) :=
    Image.ofSnapshot?_eq_ok _ _ (fun name μ hμ => hstorable μ (.inl ⟨name, hμ⟩))
      fun c μ hμ => hstorable μ (.inr ⟨c, hμ⟩)
  simp only [dump, bind_of_ok (get_apply m), Env.snapshot_eq_copy h, himage]
  exact ⟨_, bind_of_ok (trace_apply ..) _⟩

theorem exists_undump (h : m.env.atBottom = true) {img : Image}
    {codes : Image.Decoding String compare} {active : Image.Decoding Int compare}
    (hcodes : Image.decodeBindings (fun name => "\\" ++ name) m.env.fonts ∅ img.codes = .ok codes)
    (hactive : Image.decodeBindings (fun c => "active " ++ Text.Quoted.code c) codes.fonts
      codes.known img.active = .ok active) :
    ∃ env' m₂, undump img m = .ok () m₂ ∧ m.env.Overlaid (img.copy codes active) env' ∧
      m₂.env = { env' with fonts := active.fonts } := by
  obtain ⟨env', hrestore, hover⟩ := Env.exists_restoreSnapshot h (img.copy codes active)
  have hsnapshot : img.toSnapshot m.env.fonts = .ok (img.copy codes active, active.fonts) := by
    simp only [Image.toSnapshot, hcodes, hactive, bind, Except.bind, pure, Except.pure, Image.copy]
  have hload : ∃ m₁, m.load img = .ok m₁ ∧ m₁.env = { env' with fonts := active.fonts } := by
    simp only [Machine.load, hsnapshot, hrestore, bind, Except.bind, pure, Except.pure]
    exact ⟨_, rfl, rfl⟩
  obtain ⟨m₁, hload, henv⟩ := hload
  simp only [undump, bind_of_ok (get_apply m), hload]
  exact ⟨env', _, (bind_of_ok rfl _).trans (trace_apply _ _ _ m₁), hover, henv⟩

end Eng

/-- What is left of `old` after it was stored and loaded into a fresh engine: `known` are
    the fonts that stand for those of `old`, by name. -/
structure Env.Restored (old new : Env Meaning) (known : FontNames) : Prop where
  preset : new.preset = old.preset
  catcodes : ∀ c : Int, new.catcodes[c]? = old.catcodes[c]?
  table : ∀ t (c : Int), (new.table t)[c]? = (old.table t)[c]?
  counts : ∀ name : String, new.counts[name]? = old.counts[name]?
  dimens : ∀ name : String, new.dimens[name]? = old.dimens[name]?
  glues : ∀ name : String, new.glues[name]? = old.glues[name]?
  toks : ∀ name : String, new.toks[name]? = old.toks[name]?
  code? : ∀ name μ, old.code? name = some μ →
    ∃ μ', restored? known μ = some μ' ∧ new.code? name = some μ'
  code?_none : ∀ name, old.code? name = none → new.code? name = Meaning.primitive? name
  active? : ∀ c μ, old.active? c = some μ →
    ∃ μ', restored? known μ = some μ' ∧ new.active? c = some μ'
  active?_none : ∀ c, old.active? c = none → new.active? c = none
  font : new.font = if old.font.id = "" then Font.null else standIn known old.font
  fonts : Restores old.fonts (fun f => old.Binds (.font f)) new.fonts known

/-- For each font that was bound, there is a font with its name. -/
theorem Env.Restored.getElem?_known {old new : Env Meaning} {known : FontNames}
    (h : old.Restored new known) {f : Font} (hf : old.Binds (.font f)) (hne : f ≠ Font.null) :
    known[f.id]? = some (standIn known f) := by
  rcases hf with ⟨name, hname⟩ | ⟨c, hc⟩
  · obtain ⟨μ', hμ', -⟩ := h.code? name _ hname
    exact (restored?_font hμ').2 hne
  · obtain ⟨μ', hμ', -⟩ := h.active? c _ hc
    exact (restored?_font hμ').2 hne

namespace Setup

variable {s : Setup} {m : Machine}

/-- Only some integer parameters have a value in a fresh engine. -/
theorem getElem?_counts_machine (s : Setup) {name : String} (h : name ∉ Env.presetCounts) :
    s.machine.env.counts[name]? = none := by
  simp only [Env.presetCounts, List.mem_cons, List.not_mem_nil, or_false, not_or] at h
  obtain ⟨hmag, htolerance, hcycles, hhang, hescape, hendline, htime, hday, hmonth, hyear⟩ := h
  have hinitial : Env.initialCounts[name]? = none := by
    refine Std.TreeMap.getElem?_ofList_of_contains_eq_false ?_
    simp only [List.map_cons, List.map_nil, List.contains_eq_mem, List.mem_cons,
      List.not_mem_nil, or_false, decide_eq_false_iff_not, not_or]
    exact ⟨hmag, htolerance, hcycles, hhang, hescape, hendline⟩
  rw [env_machine]
  simp only [Std.TreeMap.getElem?_insert, Std.LawfulEqCmp.compare_eq_iff_eq, Ne.symm hyear,
    Ne.symm hmonth, Ne.symm hday, Ne.symm htime, if_false, hinitial]

/-- The integer parameters of a fresh engine do not show in a state that is loaded into it. -/
theorem or_counts_machine {env : Env Meaning} {n : Nat} (henv : env.WellFormed n) (s : Setup)
    (name : String) :
    (env.counts[name]?).or s.machine.env.counts[name]? = env.counts[name]? := by
  cases hname : env.counts[name]? with
  | some v => rfl
  | none =>
    refine getElem?_counts_machine s fun hmem => ?_
    have hsome := henv.isSome_count hmem
    rw [hname] at hsome
    contradiction

/-- A state outside of all groups can be stored, and loaded into any fresh engine. -/
theorem Reaches.exists_undump (h : s.Reaches m) (hbottom : m.env.atBottom = true) (s' : Setup) :
    ∃ img m' m₂ known, Eng.dump m = .ok img m' ∧ Eng.undump img s'.machine = .ok () m₂ ∧
      m₂.env.unicodeLetters = s'.options.unicodeLetters ∧ m.env.Restored m₂.env known := by
  have henv := (h.wellFormed (Nat.le_refl m.env.fonts.next)).env
  obtain ⟨m', hdump⟩ := Eng.exists_dump hbottom fun μ hμ => (henv.of_binds hμ).isStorable
  obtain ⟨codes, active, hcodes, hactive, hfonts, hcode, hcodeNone, hchar, hcharNone⟩ :=
    Image.exists_decode henv FontBook.complete_initial (fun name => "\\" ++ name)
      (fun c => "active " ++ Text.Quoted.code c) m.jobName
  obtain ⟨env', m₂, hundump, hover, henv₂⟩ :=
    Eng.exists_undump (m := s'.machine) rfl hcodes hactive
  refine ⟨_, m', m₂, active.known, hdump, hundump, ?_, ?_⟩
  · rw [henv₂]
    exact hover.unicodeLetters
  · -- Only among the counters and the meanings has a fresh engine entries of its own.
    rw [henv₂]
    exact {
      preset := by
        rw [hover.preset]
        show (if m.env.preset.text.isEmpty then _ else Preset.ofName m.env.preset.text) = _
        rw [m.env.preset.text_ne_empty, Preset.ofName_text]
        rfl
      catcodes := fun c => (hover.catcodes c).trans Option.or_none
      table := fun t c => by
        have hfresh : (s'.machine.env.table t)[c]? = none := by cases t <;> rfl
        refine (hover.table t c).trans ?_
        rw [Image.tables_copy, hfresh, Option.or_none]
      counts := fun name => (hover.counts name).trans (or_counts_machine henv s' name)
      dimens := fun name => (hover.dimens name).trans Option.or_none
      glues := fun name => (hover.glues name).trans Option.or_none
      toks := fun name => (hover.toks name).trans Option.or_none
      code? := fun name μ hμ => by
        obtain ⟨μ', hrestored, hread⟩ := hcode name μ hμ
        exact ⟨μ', hrestored, (hover.codes name).trans hread⟩
      code?_none := fun name hname => by
        refine (hover.codes name).trans ?_
        show (codes.meanings[name]?).or (Meaning.primitive? name) = _
        rw [hcodeNone name hname, Option.none_or]
      active? := fun c μ hμ => by
        obtain ⟨μ', hrestored, hread⟩ := hchar c μ hμ
        exact ⟨μ', hrestored, (hover.active c).trans (Option.or_none.trans hread)⟩
      active?_none := fun c hc => (hover.active c).trans (Option.or_none.trans (hcharNone c hc))
      font := hover.font.trans (Image.font_copy m.jobName m.env codes active)
      fonts := hfonts }

end Setup

end TexEngine
